import ServerActions.Toml.DateTime
import ServerActions.Toml.Quoted
import ServerActions.Toml.Table

namespace ServerActions.Toml

def isBareKeyChar (c : Char) : Bool :=
  ('a' ≤ c && c ≤ 'z') || ('A' ≤ c && c ≤ 'Z') || isDigit c || c == '_' || c == '-'

def spanBetween (before after : List Char) : Span :=
  ⟨before.length, after.length⟩

def readKey (s : List Char) : Option (Key × List Char) :=
  match s.takeWhile isBareKeyChar with
  | [] => (readLineText s).map fun (name, r) => (⟨String.ofList name, spanBetween s r⟩, r)
  | name =>
    let r := s.dropWhile isBareKeyChar
    some (⟨String.ofList name, spanBetween s r⟩, r)

def readKeys (s : List Char) : Option (List Key × List Char) :=
  match readKey (skipSpaces s) with
  | none => none
  | some (k, r) =>
    match skipSpaces r with
    | '.' :: r =>
      if r.length < s.length then (readKeys r).map fun (path, r) => (k :: path, r) else none
    | r => some ([k], r)
  termination_by s.length

/-- The most levels of nested values, and the most keys with points between them. -/
def nestingLimit : Nat := 79

def readPath (s : List Char) : Option (List Key × List Char) :=
  (readKeys s).filter fun (path, _) => path.length ≤ nestingLimit

def readScalar (s : List Char) : Option (Scalar × List Char) :=
  match s with
  | 't' :: 'r' :: 'u' :: 'e' :: r => some (.boolean true, r)
  | 'f' :: 'a' :: 'l' :: 's' :: 'e' :: r => some (.boolean false, r)
  | _ =>
    match readText s with
    | some (text, r) => some (.text (String.ofList text), r)
    | none =>
      match readDateTime s with
      | some r => some (.dateTime, r)
      | none => (readNumber s).map fun (n, r) => (.number n, r)

def readItems (readItem : List Char → Option (Node × List Char)) (s : List Char) :
    Option (List Node × List Char) :=
  match skipLayout s with
  | ']' :: r => some ([], r)
  | t =>
    match readItem t with
    | none => none
    | some (item, r) =>
      match skipLayout r with
      | ']' :: r => some ([item], r)
      | ',' :: r =>
        if r.length < s.length then
          (readItems readItem r).map fun (items, r) => (item :: items, r)
        else none
      | _ => none
  termination_by s.length

def readAssignment (readItem : List Char → Option (Node × List Char)) (s : List Char) :
    Option ((List Key × Node) × List Char) := do
  let (path, s) ← readPath s
  let (value, s) ← readItem (skipSpaces (← readChar '=' s))
  return ((path, value), skipSpaces s)

def readAssignments (readItem : List Char → Option (Node × List Char)) (s : List Char) :
    Option (Assignments × List Char) :=
  match readAssignment readItem s with
  | none => none
  | some (pair, r) =>
    match r with
    | '\x7d' :: r => some ([pair], r)
    | ',' :: r =>
      if r.length < s.length then
        (readAssignments readItem r).map fun (pairs, r) => (pair :: pairs, r)
      else none
    | _ => none
  termination_by s.length

def readBraced (readItem : List Char → Option (Node × List Char)) (s : List Char) :
    Option (Assignments × List Char) :=
  match skipSpaces s with
  | '\x7d' :: r => some ([], r)
  | _ => readAssignments readItem s

def readValue : (depth : Nat) → List Char → Option (Node × List Char)
  | depth + 1, '[' :: s => do
    let (items, r) ← readItems (readValue depth) s
    return (.array (spanBetween ('[' :: s) r) items, r)
  | depth + 1, '\x7b' :: s => do
    let (pairs, r) ← readBraced (readValue depth) s
    return (← tableInBraces? (spanBetween ('\x7b' :: s) r) pairs, r)
  | _, s => (readScalar s).map fun (value, r) => (.scalar (spanBetween s r) value, r)

end ServerActions.Toml
