import ServerActions.Toml.Value

namespace ServerActions.Toml

inductive Header
  | table (span : Span) (path : List Key)
  | tables (span : Span) (path : List Key)

inductive Line
  | assignment (path : List Key) (value : Node)
  | header (h : Header)

structure Section where
  header : Header
  pairs : Assignments

def readHeader (s : List Char) : Option (Header × List Char) :=
  match s with
  | '[' :: '[' :: r => do
    let (path, r) ← readPath r
    let r ← readChar ']' (← readChar ']' r)
    return (.tables (spanBetween s r) path, r)
  | '[' :: r => do
    let (path, r) ← readPath r
    let r ← readChar ']' r
    return (.table (spanBetween s r) path, r)
  | _ => none

def readLine (s : List Char) : Option (Line × List Char) :=
  match s with
  | '[' :: _ => do
    let (h, r) ← readHeader s
    return (.header h, ← readLineEnd r)
  | _ => do
    let ((path, value), r) ← readAssignment (readValue nestingLimit) s
    return (.assignment path value, ← readLineEnd r)

def readLines (s : List Char) : Option (List Line) :=
  match skipLayout s with
  | [] => some []
  | t =>
    match readLine t with
    | none => none
    | some (line, r) =>
      if r.length < s.length then (readLines r).map (line :: ·) else none
  termination_by s.length

def sections : List Line → Assignments × List Section
  | [] => ([], [])
  | .assignment path value :: lines =>
    let (pairs, rest) := sections lines
    ((path, value) :: pairs, rest)
  | .header h :: lines =>
    let (pairs, rest) := sections lines
    ([], ⟨h, pairs⟩ :: rest)

def addSection (root : Node) (s : Section) : Option Node :=
  match s.header with
  | .table span path => do
    descend .implied (addTable span (← path.getLast?) s.pairs) path.dropLast root
  | .tables span path => do
    descend .implied (addToTables span (← path.getLast?) s.pairs) path.dropLast root

def build (lines : List Line) : Option Node := do
  let (pairs, rest) := sections lines
  rest.foldlM addSection (← assignAll (.table none .header []) pairs)

def skipByteOrderMark : List Char → List Char
  | '\ufeff' :: s => s
  | s => s

def read? (text : String) : Option Node := do
  build (← readLines (skipByteOrderMark text.toList))

end ServerActions.Toml
