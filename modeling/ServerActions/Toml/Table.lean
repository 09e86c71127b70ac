import ServerActions.Toml.Node

/-!
How keys and headers build tables.  A key is given a value once.  A dotted key leads only through
tables made by dotted keys and headers, a header only to a table that has no header yet.
-/

namespace ServerActions.Toml

def leadsThrough : Form → Form → Bool
  | _, .inBraces => false
  | .dotted, .header => false
  | _, _ => true

/-- Changes the table to which keys lead from a table, making the tables on the way that are
missing.  Keys lead through the last of several tables with one header name. -/
def descend (form : Form) (edit : Node → Option Node) : List Key → Node → Option Node
  | [], t => edit t
  | k :: path, .table span own fields =>
    match lookup k.name fields with
    | none => do
      let child ← descend form edit path (.table none form [])
      return .table span own (fields ++ [(k, child)])
    | some (.table childSpan childForm childFields) =>
      if leadsThrough form childForm then do
        let child ← descend form edit path (.table childSpan childForm childFields)
        return .table span own (update k.name child fields)
      else none
    | some (.tables items) => do
      let last ← descend form edit path (← items.getLast?)
      return .table span own (update k.name (.tables (items.dropLast ++ [last])) fields)
    | some _ => none
  | _ :: _, _ => none

def addField (dotted : Bool) (k : Key) (value : Node) : Node → Option Node
  | .table span form fields =>
    if dotted = (form == .dotted) && (lookup k.name fields).isNone then
      some (.table span form (fields ++ [(k, value)]))
    else none
  | _ => none

def assign (t : Node) (path : List Key) (value : Node) : Option Node := do
  let k ← path.getLast?
  descend .dotted (addField (path.length != 1) k value) path.dropLast t

def extendTo (value : Node) : Node → Node
  | .table (some span) form fields =>
    .table (some (match value.span? with
      | some valueSpan => ⟨span.start, valueSpan.stop⟩
      | none => span)) form fields
  | t => t

abbrev Assignments := List (List Key × Node)

def assignAll (t : Node) (pairs : Assignments) : Option Node :=
  pairs.foldlM (fun t (path, value) => assign (extendTo value t) path value) t

def addTable (span : Span) (k : Key) (pairs : Assignments) : Node → Option Node
  | .table parentSpan form fields => do
    let own ←
      match lookup k.name fields with
      | none => some []
      | some (.table _ .implied own) => some own
      | some _ => none
    let t ← assignAll (.table (some span) .header own) pairs
    return .table parentSpan form (withoutName k.name fields ++ [(k, t)])
  | _ => none

def addToTables (span : Span) (k : Key) (pairs : Assignments) : Node → Option Node
  | .table parentSpan form fields => do
    let t ← assignAll (.table (some span) .header []) pairs
    match lookup k.name fields with
    | none => return .table parentSpan form (fields ++ [(k, .tables [t])])
    | some (.tables items) =>
      return .table parentSpan form (update k.name (.tables (items ++ [t])) fields)
    | some _ => none
  | _ => none

def tableInBraces? (span : Span) (pairs : Assignments) : Option Node :=
  assignAll (.table none .inBraces []) pairs >>= fun
    | .table _ form fields => some (.table (some span) form fields)
    | _ => none

end ServerActions.Toml
