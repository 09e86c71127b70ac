import ServerActions.Decimal.Shortest
import ServerActions.Text.Quoted
import ServerActions.Toml.Excerpt
import ServerActions.Toml.Node

namespace ServerActions

open Toml

inductive Wanted
  | text
  | boolean
  | settings
  deriving DecidableEq

def Wanted.describe : Wanted → String
  | text => "a string"
  | boolean => "a boolean"
  | settings => "struct GenerateConfig"

structure Mismatch where
  span : Span
  found : String
  wanted : Wanted
  deriving DecidableEq

namespace Toml

def Number.describe : Number → String
  | integer value => "integer `" ++ toString value ++ "`"
  | float value => "floating point `" ++ value.toText ++ "`"

def Scalar.describe : Scalar → String
  | text value => "string " ++ Text.quoted value
  | number value => value.describe
  | boolean value => "boolean `" ++ (if value then "true" else "false") ++ "`"
  | dateTime => "map"

def Node.describe : Node → String
  | scalar _ value => value.describe
  | array _ _ => "sequence"
  | table _ _ _ => "map"
  | tables _ => "sequence"

end Toml

def Mismatch.ofNode (key : Span) (value : Node) (wanted : Wanted) : Mismatch :=
  ⟨value.span?.getD key, value.describe, wanted⟩

inductive SettingsFault
  | malformed
  | mismatch (place : Excerpt) (found : String) (wanted : Wanted)
  deriving DecidableEq

def SettingsFault.message : SettingsFault → String
  | malformed => "TOML parse error"
  | mismatch place found wanted =>
    place.text ++ "invalid type: " ++ found ++ ", expected " ++ wanted.describe ++ "\n"

end ServerActions
