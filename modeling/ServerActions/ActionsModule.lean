import ServerActions.Declaration.Basic
import ServerActions.Declaration.Names
import ServerActions.Path
import ServerActions.Settings.Basic

namespace ServerActions.ActionsModule

def header (directive : String) : String :=
  "\"" ++ directive ++ "\"\n\n"

def importLine (i : ImportBinding) : String :=
  "import \x7b " ++ Declaration.joinNames i.names ++ " \x7d from \"." ++ i.path ++ "\";\n"

def exportLine (e : EntryPoints) : String :=
  "\nexport \x7b " ++ Declaration.joinNames e.names ++ " \x7d\n"

def render (directive : String) (imports : List ImportBinding) (e : EntryPoints) : String :=
  header directive ++ String.join (imports.map importLine) ++ exportLine e

def outputPath (settings : Settings) (declaration : Path) : Path :=
  let directory := (declaration.parent?.getD ⟨""⟩).join ⟨settings.outputDir⟩
  directory.join
    ⟨settings.outputStem ++ "." ++ declaration.extension?.getD settings.extension⟩

end ServerActions.ActionsModule
