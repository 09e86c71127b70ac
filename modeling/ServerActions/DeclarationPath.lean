import ServerActions.Settings.Basic
import ServerActions.Workspace

namespace ServerActions

open Workspace

variable {m : Type → Type} [Monad m] [Workspace m]

def Settings.declarationName (s : Settings) : Path :=
  ⟨s.fileStem ++ "." ++ s.extension⟩

def defaultDeclaration (root : Path) (s : Settings) : m Path := do
  let directory := root.join ⟨s.sourceDir⟩
  log (.probing directory)
  if ← pathExists directory then return directory.join s.declarationName
  else return root.join s.declarationName

def findDeclaration (root : Path) (path : Option Path) (s : Settings) : m Path :=
  match path with
  | some p => if p.text = "" then defaultDeclaration root s else pure (root.join p)
  | none => defaultDeclaration root s

end ServerActions
