import ServerActions.FileTree.AccessError
import ServerActions.Path
import ServerActions.Settings.Fault

namespace ServerActions

inductive Failure
  | declarationNotFound (path : Path)
  | factoryNotCalled (path : Path) (factory : String)
  | unbacked (names : List String)
  | stale (path : Path)
  | access (path : Path) (cause : AccessError)
  | pattern (sizeLimit : Nat)
  | settingsNotFound (path : Path)
  | settings (path : Path) (fault : SettingsFault)
  deriving DecidableEq

def Failure.message : Failure → String
  | declarationNotFound path => "Troute file not found at " ++ path.text
  | factoryNotCalled path factory =>
    "Could not find " ++ factory ++ " object in troute file " ++ path.text
  | unbacked names => "Entry points without a matching import: " ++ ", ".intercalate names
  | stale path => "Generated file " ++ path.text ++ " is out of date; run `troute generate`"
  | access path cause => "Failed to access " ++ path.text ++ ": " ++ cause.message
  | pattern sizeLimit =>
    "Invalid factory pattern: Compiled regex exceeds size limit of " ++ toString sizeLimit ++
      " bytes."
  | settingsNotFound path => "Config file not found at " ++ path.text
  | settings path fault => "Invalid config file " ++ path.text ++ ": " ++ fault.message

end ServerActions
