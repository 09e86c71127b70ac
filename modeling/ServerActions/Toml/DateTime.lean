import ServerActions.Toml.Number

namespace ServerActions.Toml

def readFixed : (n : Nat) → List Char → Option (Nat × List Char)
  | 0, s => some (0, s)
  | n + 1, s => do
    let (v, s) ← readFixed n s
    match s with
    | c :: r => (digitIn? 10 c).map fun d => (10 * v + d, r)
    | [] => none

def readTwo (least greatest : Nat) (s : List Char) : Option (Nat × List Char) :=
  (readFixed 2 s).filter fun (v, _) => least ≤ v && v ≤ greatest

def readChar (c : Char) : List Char → Option (List Char)
  | d :: s => if c = d then some s else none
  | [] => none

def isLeapYear (year : Nat) : Bool :=
  year % 4 == 0 && (year % 100 != 0 || year % 400 == 0)

def daysInMonth (year month : Nat) : Nat :=
  if month = 2 then (if isLeapYear year then 29 else 28)
  else if month = 4 || month = 6 || month = 9 || month = 11 then 30
  else 31

def readDate (s : List Char) : Option (List Char) := do
  let (year, s) ← readFixed 4 s
  let (month, s) ← readTwo 1 12 (← readChar '-' s)
  let (_, s) ← readTwo 1 (daysInMonth year month) (← readChar '-' s)
  return s

def skipFraction (s : List Char) : List Char :=
  match s with
  | '.' :: c :: r => if isDigit c then r.dropWhile isDigit else s
  | s => s

def readTime (s : List Char) : Option (List Char) := do
  let (_, s) ← readTwo 0 23 s
  let (_, s) ← readTwo 0 59 (← readChar ':' s)
  let (_, s) ← readTwo 0 60 (← readChar ':' s)
  return skipFraction s

def readOffset : List Char → Option (List Char)
  | [] => none
  | c :: s =>
    if c = 'Z' || c = 'z' then some s
    else if c = '+' || c = '-' then do
      let (_, s) ← readTwo 0 23 s
      let (_, s) ← readTwo 0 59 (← readChar ':' s)
      return s
    else none

def readTimeOfDay : List Char → Option (List Char)
  | [] => none
  | c :: s =>
    if c = 'T' || c = 't' || c = ' ' then do
      let s ← readTime s
      return (readOffset s).getD s
    else none

def readDateTime (s : List Char) : Option (List Char) :=
  match readDate s with
  | some r => some ((readTimeOfDay r).getD r)
  | none => readTime s

end ServerActions.Toml
