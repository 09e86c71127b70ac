import ServerActions.Decimal.Binary64
import ServerActions.Toml.Quoted

namespace ServerActions.Toml

def isDigit (c : Char) : Bool :=
  '0' ≤ c && c ≤ '9'

def digitIn? (base : Nat) (c : Char) : Option Nat :=
  (hexDigit? c).filter (· < base)

def readMoreDigits (base : Nat) : List Char → Option (List Nat × List Char)
  | [] => some ([], [])
  | '_' :: s =>
    match s with
    | [] => none
    | c :: s =>
      match digitIn? base c with
      | none => none
      | some d => (readMoreDigits base s).map fun (ds, r) => (d :: ds, r)
  | c :: s =>
    match digitIn? base c with
    | none => some ([], c :: s)
    | some d => (readMoreDigits base s).map fun (ds, r) => (d :: ds, r)

def readDigits (base : Nat) : List Char → Option (List Nat × List Char)
  | [] => none
  | c :: s =>
    match digitIn? base c with
    | none => none
    | some d => (readMoreDigits base s).map fun (ds, r) => (d :: ds, r)

def readWhole : List Char → Option (List Nat × List Char)
  | '0' :: s => some ([0], s)
  | s => readDigits 10 s

def ofDigits (base : Nat) (ds : List Nat) : Nat :=
  ds.foldl (fun n d => base * n + d) 0

def readSign : List Char → Bool × List Char
  | '+' :: s => (false, s)
  | '-' :: s => (true, s)
  | s => (false, s)

def signed (negative : Bool) (n : Nat) : Int :=
  if negative then -(n : Int) else n

def inInt64 (n : Int) : Bool :=
  -9223372036854775808 ≤ n && n ≤ 9223372036854775807

inductive Number
  | integer (value : Int)
  | float (value : Binary64)
  deriving DecidableEq, Inhabited

def Number.ofInt? (n : Int) : Option Number :=
  if inInt64 n then some (.integer n) else none

def Number.ofDecimal? (negative : Bool) (digits : List Nat) (exponent : Int) : Option Number :=
  match Binary64.ofDecimal negative (ofDigits 10 digits) exponent with
  | .infinite false => none
  | value => some (.float value)

def readExponent : List Char → Option (Int × List Char)
  | [] => none
  | c :: s =>
    if c = 'e' || c = 'E' then
      let (negative, s) := readSign s
      (readDigits 10 s).map fun (ds, r) => (signed negative (ofDigits 10 ds), r)
    else none

def readFraction (negative : Bool) (whole : List Nat) (s : List Char) :
    Option (Number × List Char) :=
  match s with
  | '.' :: s => do
    let (ds, s) ← readDigits 10 s
    let (e, s) ←
      match s with
      | 'e' :: _ => readExponent s
      | 'E' :: _ => readExponent s
      | _ => some (0, s)
    return (← Number.ofDecimal? negative (whole ++ ds) (e - ds.length), s)
  | 'e' :: _ => do
    let (e, s) ← readExponent s
    return (← Number.ofDecimal? negative whole e, s)
  | 'E' :: _ => do
    let (e, s) ← readExponent s
    return (← Number.ofDecimal? negative whole e, s)
  | s => (Number.ofInt? (signed negative (ofDigits 10 whole))).map (·, s)

def readInBase (base : Nat) (s : List Char) : Option (Number × List Char) := do
  let (ds, s) ← readDigits base s
  return (← Number.ofInt? (ofDigits base ds), s)

def readUnsigned (negative : Bool) : List Char → Option (Number × List Char)
  | 'i' :: 'n' :: 'f' :: s => some (.float (.infinite negative), s)
  | 'n' :: 'a' :: 'n' :: s => some (.float .nan, s)
  | s => do
    let (whole, s) ← readWhole s
    readFraction negative whole s

def readNumber : List Char → Option (Number × List Char)
  | '0' :: 'x' :: s => readInBase 16 s
  | '0' :: 'o' :: s => readInBase 8 s
  | '0' :: 'b' :: s => readInBase 2 s
  | s =>
    let (negative, s) := readSign s
    readUnsigned negative s

end ServerActions.Toml
