import ServerActions.Json.Value
import ServerActions.Proofs.Text.Scan
import ServerActions.Toml.Quoted

namespace ServerActions.Json

open Text

inductive Datum
  | null
  | boolean (value : Bool)
  | number (value : Rat)
  | text (value : String)
  | array (items : List Datum)
  | object (members : List (String × Datum))

section Layout

variable {α β γ : Type}

def isGap (c : Char) : Bool :=
  c == ' ' || c == '\t' || c == '\n' || c == '\r'

abbrev Gap := {s : List Char // ∀ c ∈ s, isGap c = true}

def mapped (f : α → β) (g : Grammar α) : Grammar β :=
  fun b t => ∃ a, g a t ∧ f a = b

def followed (g : Grammar α) (h : Grammar β) : Grammar (α × β) :=
  fun ab t => ∃ u v, t = u ++ v ∧ g ab.1 u ∧ h ab.2 v

def padded (g : Grammar α) : Grammar α :=
  fun a t => ∃ (before after : Gap) (u : List Char), t = before.val ++ u ++ after.val ∧ g a u

inductive Listed (g : Grammar α) : Grammar (List α)
  | last {a : α} {t : List Char} (item : g a t) : Listed g [a] t
  | cons {a : α} {as : List α} {t u : List Char} (item : g a t) (items : Listed g as u) :
      Listed g (a :: as) (t ++ ',' :: u)

inductive Enclosed (opening closing : Char) (g : Grammar α) : Grammar (List α)
  | empty (gap : Gap) : Enclosed opening closing g [] (opening :: gap.val ++ [closing])
  | listed {as : List α} {t : List Char} (items : Listed g as t) :
      Enclosed opening closing g as (opening :: t ++ [closing])

end Layout

abbrev Digits := {ds : List Char // ds ≠ [] ∧ ∀ d ∈ ds, d.isDigit = true}

def natural (digits : List Char) : Nat :=
  Nat.ofDigitChars 10 digits 0

def decimals (digits : List Char) : Rat :=
  natural digits / 10 ^ digits.length

inductive IsSign : Grammar Rat
  | plus : IsSign 1 []
  | minus : IsSign (-1) ['-']

inductive IsWhole : Grammar Nat
  | zero : IsWhole 0 ['0']
  | digits (ds : Digits) (leading : ds.val.head? ≠ some '0') : IsWhole (natural ds.val) ds.val

inductive IsFraction : Grammar Rat
  | none : IsFraction 0 []
  | digits (ds : Digits) : IsFraction (decimals ds.val) ('.' :: ds.val)

inductive IsPower : Grammar Rat
  | unsigned (ds : Digits) : IsPower (10 ^ natural ds.val) ds.val
  | plus (ds : Digits) : IsPower (10 ^ natural ds.val) ('+' :: ds.val)
  | minus (ds : Digits) : IsPower (10 ^ natural ds.val)⁻¹ ('-' :: ds.val)

inductive IsExponent : Grammar Rat
  | none : IsExponent 1 []
  | power {mark : Char} {p : Rat} {t : List Char} (letter : mark = 'e' ∨ mark = 'E')
      (power : IsPower p t) : IsExponent p (mark :: t)

def scaled (parts : Rat × Nat × Rat × Rat) : Rat :=
  let (sign, whole, fraction, power) := parts
  sign * (whole + fraction) * power

def IsNumber : Grammar Rat :=
  mapped scaled (followed IsSign (followed IsWhole (followed IsFraction IsExponent)))

def shortEscape? : Char → Option Char
  | '"' => some '"'
  | '\\' => some '\\'
  | '/' => some '/'
  | 'b' => some '\x08'
  | 'f' => some '\x0c'
  | 'n' => some '\n'
  | 'r' => some '\r'
  | 't' => some '\t'
  | _ => none

def isLead (unit : Nat) : Bool :=
  0xD800 ≤ unit && unit < 0xDC00

def isTrail (unit : Nat) : Bool :=
  0xDC00 ≤ unit && unit < 0xE000

def paired (lead trail : Nat) : Char :=
  Char.ofNat (0x10000 + 0x400 * (lead - 0xD800) + (trail - 0xDC00))

inductive IsUnit : Grammar Nat
  | digits {a b c d : Char} {unit : Nat} (value : Toml.hexValue? [a, b, c, d] = some unit) :
      IsUnit unit ['\\', 'u', a, b, c, d]

inductive IsChar : Grammar Char
  | plain {c : Char} (high : 0x20 ≤ c.toNat) (quote : c ≠ '"') (backslash : c ≠ '\\') :
      IsChar c [c]
  | short {e c : Char} (escape : shortEscape? e = some c) : IsChar c ['\\', e]
  | unit {n : Nat} {t : List Char} (unit : IsUnit n t) (lead : isLead n = false)
      (trail : isTrail n = false) : IsChar (Char.ofNat n) t
  | pair {m n : Nat} {t u : List Char} (first : IsUnit m t) (second : IsUnit n u)
      (lead : isLead m = true) (trail : isTrail n = true) : IsChar (paired m n) (t ++ u)

inductive IsChars : Grammar (List Char)
  | nil : IsChars [] []
  | cons {c : Char} {cs t u : List Char} (char : IsChar c t) (chars : IsChars cs u) :
      IsChars (c :: cs) (t ++ u)

def IsQuoted : Grammar String :=
  fun text t => ∃ u, t = '"' :: u ++ ['"'] ∧ IsChars text.toList u

def IsMember (g : Grammar Datum) : Grammar (String × Datum) :=
  fun m t => ∃ u v, t = u ++ ':' :: v ∧ padded IsQuoted m.1 u ∧ padded g m.2 v

inductive IsNode (inside : Grammar Datum) : Grammar Datum
  | null : IsNode inside .null ['n', 'u', 'l', 'l']
  | true : IsNode inside (.boolean true) ['t', 'r', 'u', 'e']
  | false : IsNode inside (.boolean false) ['f', 'a', 'l', 's', 'e']
  | number {value : Rat} {t : List Char} (number : IsNumber value t) :
      IsNode inside (.number value) t
  | text {value : String} {t : List Char} (quoted : IsQuoted value t) :
      IsNode inside (.text value) t
  | array {items : List Datum} {t : List Char} (listed : Enclosed '[' ']' (padded inside) items t) :
      IsNode inside (.array items) t
  | object {members : List (String × Datum)} {t : List Char}
      (listed : Enclosed '\x7b' '\x7d' (IsMember inside) members t) :
      IsNode inside (.object members) t

def IsValue : (levels : Nat) → Grammar Datum
  | 0 => fun _ _ => False
  | levels + 1 => IsNode (IsValue levels)

end ServerActions.Json
