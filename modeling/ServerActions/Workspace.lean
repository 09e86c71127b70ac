import ServerActions.FileTree.Access
import ServerActions.Trace

/-!
What a run may do to its surroundings: look at files, make them, log events, warn and print.  A
session does it to a tree of files and a list of messages.
-/

namespace ServerActions

class Workspace (m : Type → Type) where
  pathExists : Path → m Bool
  readText : Path → m (Except AccessError String)
  makeDirectories : Path → m (Except AccessError Unit)
  writeText : Path → String → m (Except AccessError Unit)
  log : Event → m Unit
  warn : String → m Unit
  print : String → m Unit

namespace Workspace

variable {m : Type → Type} [Monad m] [Workspace m]

def logAll : List Event → m Unit
  | [] => pure ()
  | e :: es => do
    log e
    logAll es

def warnAll : List String → m Unit
  | [] => pure ()
  | text :: texts => do
    warn text
    warnAll texts

end Workspace

structure Session where
  tree : FileTree
  messages : List Message

namespace Session

def events (s : Session) : List Event :=
  s.messages.filterMap Message.event?

def say (m : Message) : StateM Session Unit := fun s =>
  ((), { s with messages := s.messages ++ [m] })

def change (edit : FileTree → Except AccessError FileTree) :
    StateM Session (Except AccessError Unit) := fun s =>
  match edit s.tree with
  | .ok tree => (.ok (), { s with tree })
  | .error e => (.error e, s)

instance : Workspace (StateM Session) where
  pathExists p := fun s => (s.tree.pathExists p, s)
  readText p := fun s => (s.tree.readText p, s)
  makeDirectories p := fun s =>
    let (outcome, tree) := s.tree.makeDirectories p
    (outcome, { s with tree })
  writeText p text := change (·.writeBytes p text.toUTF8)
  log e := say (.event e)
  warn text := say (.warning text)
  print text := say (.output text)

end Session

def runIn {α : Type} (tree : FileTree) (x : StateM Session α) : α × Session :=
  x ⟨tree, []⟩

end ServerActions
