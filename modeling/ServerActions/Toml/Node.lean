import ServerActions.Toml.Number

namespace ServerActions.Toml

structure Key where
  name : String
  span : Span
  deriving DecidableEq, Inhabited

inductive Scalar
  | text (value : String)
  | number (value : Number)
  | boolean (value : Bool)
  | dateTime
  deriving DecidableEq, Inhabited

/-- How a table came to be: by braces, by a header of its own, by a longer header, or by a dotted
key. -/
inductive Form
  | inBraces
  | header
  | implied
  | dotted
  deriving DecidableEq, Inhabited

inductive Node
  | scalar (span : Span) (value : Scalar)
  | array (span : Span) (items : List Node)
  | table (span : Option Span) (form : Form) (fields : List (Key × Node))
  | tables (items : List Node)
  deriving Inhabited

namespace Node

def span? : Node → Option Span
  | scalar span _ => some span
  | array span _ => some span
  | table span _ _ => span
  | tables items => do
    let first ← items.head?
    let last ← items.getLast?
    return ⟨(← headSpan? first).start, (← headSpan? last).stop⟩
where
  headSpan? : Node → Option Span
    | table span _ _ => span
    | _ => none

end Node

def lookup (name : String) : List (Key × Node) → Option Node
  | [] => none
  | (k, v) :: fields => if k.name = name then some v else lookup name fields

def update (name : String) (value : Node) : List (Key × Node) → List (Key × Node)
  | [] => []
  | (k, v) :: fields =>
    if k.name = name then (k, value) :: fields else (k, v) :: update name value fields

def withoutName (name : String) (fields : List (Key × Node)) : List (Key × Node) :=
  fields.filter fun (k, _) => k.name != name

end ServerActions.Toml
