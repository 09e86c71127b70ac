import ServerActions.Json.Value

namespace ServerActions.Json

def hexDigit (n : Nat) : Char :=
  (Nat.toDigits 16 n).headD '0'

def escapeChar (c : Char) : List Char :=
  match c with
  | '"' => ['\\', '"']
  | '\\' => ['\\', '\\']
  | '\x08' => ['\\', 'b']
  | '\t' => ['\\', 't']
  | '\n' => ['\\', 'n']
  | '\x0c' => ['\\', 'f']
  | '\r' => ['\\', 'r']
  | c =>
    if c.toNat < 0x20 then
      ['\\', 'u', '0', '0', hexDigit (c.toNat / 16), hexDigit (c.toNat % 16)]
    else [c]

def printText (s : String) : List Char :=
  '"' :: s.toList.flatMap escapeChar ++ ['"']

def newLine (level : Nat) : List Char :=
  '\n' :: List.replicate (2 * level) ' '

def bracketed (opening closing : Char) (level : Nat) (lines : List (List Char)) : List Char :=
  match lines with
  | [] => [opening, closing]
  | line :: lines =>
    opening :: newLine (level + 1) ++ line ++
      lines.flatMap (fun line => ',' :: newLine (level + 1) ++ line) ++
      newLine level ++ [closing]

mutual

def print (level : Nat) : Json → List Char
  | boolean value => (if value then "true" else "false").toList
  | number value => Nat.toDigits 10 value
  | text value => printText value
  | array items => bracketed '[' ']' level (printItems (level + 1) items)
  | object members => bracketed '\x7b' '\x7d' level (printMembers (level + 1) members)

def printItems (level : Nat) : List Json → List (List Char)
  | [] => []
  | item :: items => print level item :: printItems level items

def printMembers (level : Nat) : List (String × Json) → List (List Char)
  | [] => []
  | (name, value) :: members =>
    (printText name ++ [':', ' '] ++ print level value) :: printMembers level members

end

def pretty (j : Json) : String :=
  String.ofList (j.print 0)

end ServerActions.Json
