import ServerActions.Settings.Basic
import ServerActions.Settings.Fault
import ServerActions.Toml.Document

namespace ServerActions.Settings

open Toml

def readTextValue (key : Span) : Node → Except Mismatch String
  | .scalar _ (.text value) => .ok value
  | value => .error (.ofNode key value .text)

def readBoolean (key : Span) : Node → Except Mismatch Bool
  | .scalar _ (.boolean value) => .ok value
  | value => .error (.ofNode key value .boolean)

def setField (s : Settings) (key : Span) (name : String) (value : Node) :
    Except Mismatch Settings :=
  match name with
  | "source_dir" => do return { s with sourceDir := ← readTextValue key value }
  | "file_stem" => do return { s with fileStem := ← readTextValue key value }
  | "extension" => do return { s with extension := ← readTextValue key value }
  | "output_dir" => do return { s with outputDir := ← readTextValue key value }
  | "output_stem" => do return { s with outputStem := ← readTextValue key value }
  | "factory" => do return { s with factory := ← readTextValue key value }
  | "directive" => do return { s with directive := ← readTextValue key value }
  | "strict" => do return { s with strict := ← readBoolean key value }
  | _ => return s

def fieldNames : List String :=
  ["source_dir", "file_stem", "extension", "output_dir", "output_stem", "factory", "directive",
    "strict"]

def ofFields (fields : List (Key × Node)) : Except Mismatch Settings :=
  fields.foldlM (fun s (k, value) => s.setField k.span k.name value) {}

def ofItems (key : Span) (items : List Node) : Except Mismatch Settings :=
  (fieldNames.zip items).foldlM (fun s (name, value) => s.setField key name value) {}

def ofNode (key : Span) : Node → Except Mismatch Settings
  | .table _ _ fields => ofFields fields
  | .array _ items => ofItems key items
  | .tables items => ofItems key items
  | .scalar _ .dateTime => .ok {}
  | value => .error (.ofNode key value .settings)

def ofRoot : List (Key × Node) → Except Mismatch Settings
  | [] => .ok {}
  | (k, value) :: fields => if k.name = "generate" then ofNode k.span value else ofRoot fields

def parse (text : String) : Except SettingsFault Settings :=
  match Toml.read? text with
  | some (.table _ _ fields) =>
    (ofRoot fields).mapError fun m =>
      .mismatch (.ofSpan text.toList m.span) m.found m.wanted
  | _ => .error .malformed

end ServerActions.Settings
