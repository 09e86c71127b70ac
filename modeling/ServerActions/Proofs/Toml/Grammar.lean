import ServerActions.Proofs.Text.Reading
import ServerActions.Proofs.Text.Scan
import ServerActions.Toml.Document

/-!
The grammar of settings documents: layout, texts in quotes, numbers, dates, keys and values, with
what each text stands for.
-/

namespace ServerActions.Toml

open Text

variable {α : Type}

def IsSpaces (t : List Char) : Prop :=
  ∀ c ∈ t, isSpace c = true

instance (t : List Char) : Decidable (IsSpaces t) :=
  List.decidableBAll (fun c => isSpace c = true) t

inductive IsNewline : List Char → Prop
  | feed : IsNewline ['\n']
  | returnFeed : IsNewline ['\r', '\n']

def NoNewline (s : List Char) : Prop :=
  ∀ n r, IsNewline n → s ≠ n ++ r

inductive IsComment : List Char → Prop
  | none : IsComment []
  | marked {t : List Char} (plain : ∀ c ∈ t, isTextChar c = true) : IsComment ('#' :: t)

inductive IsLayout : List Char → Prop
  | nil : IsLayout []
  | space {c : Char} {t : List Char} (space : isSpace c = true) (layout : IsLayout t) :
      IsLayout (c :: t)
  | line {u n t : List Char} (comment : IsComment u) (newline : IsNewline n)
      (layout : IsLayout t) : IsLayout (u ++ n ++ t)

inductive IsBlank : List Char → Prop
  | nil : IsBlank []
  | space {c : Char} {t : List Char} (space : isSpace c = true) (blank : IsBlank t) :
      IsBlank (c :: t)
  | line {n t : List Char} (newline : IsNewline n) (blank : IsBlank t) : IsBlank (n ++ t)

def shortEscape? : Char → Option Char
  | 'b' => some '\x08'
  | 't' => some '\t'
  | 'n' => some '\n'
  | 'f' => some '\x0c'
  | 'r' => some '\r'
  | '"' => some '"'
  | '\\' => some '\\'
  | _ => none

inductive IsEscape : Grammar Char
  | short {e c : Char} (escape : shortEscape? e = some c) : IsEscape c [e]
  | code {mark : Char} {ds : List Char} {n : Nat} (size : (mark, ds.length) ∈ [('u', 4), ('U', 8)])
      (value : hexValue? ds = some n) (valid : n.isValidChar) : IsEscape (Char.ofNat n) (mark :: ds)

inductive IsBasicChar : Grammar Char
  | plain {c : Char} (text : isTextChar c = true) (quote : c ≠ '"') (backslash : c ≠ '\\') :
      IsBasicChar c [c]
  | escape {c : Char} {t : List Char} (escape : IsEscape c t) : IsBasicChar c ('\\' :: t)

inductive IsBasicChars : Grammar (List Char)
  | nil : IsBasicChars [] []
  | cons {c : Char} {cs t u : List Char} (char : IsBasicChar c t) (chars : IsBasicChars cs u) :
      IsBasicChars (c :: cs) (t ++ u)

def IsBasic : Grammar (List Char) :=
  fun cs t => ∃ u, t = '"' :: u ++ ['"'] ∧ IsBasicChars cs u

def IsLiteralChar (c : Char) : Prop :=
  isTextChar c = true ∧ c ≠ '\''

def IsLiteral : Grammar (List Char) :=
  fun cs t => t = '\'' :: cs ++ ['\''] ∧ ∀ c ∈ cs, IsLiteralChar c

abbrev LinePart := List Char → List Char → List Char → Prop

inductive IsLiteralPart : LinePart
  | char {c : Char} {r : List Char} (char : IsLiteralChar c) : IsLiteralPart [c] [c] r
  | newline {n r : List Char} (newline : IsNewline n) : IsLiteralPart ['\n'] n r

/-- A backslash at the end of a line takes away the end of the line and what is blank behind it. -/
inductive IsBasicPart : LinePart
  | char {c : Char} {t r : List Char} (char : IsBasicChar c t) : IsBasicPart [c] t r
  | newline {n r : List Char} (newline : IsNewline n) : IsBasicPart ['\n'] n r
  | joined {s n t r : List Char} (spaces : IsSpaces s) (newline : IsNewline n) (blank : IsBlank t)
      (solid : Stops isSpace r ∧ NoNewline r) : IsBasicPart [] ('\\' :: s ++ n ++ t) r

inductive IsLines (quote : Char) (part : LinePart) : Grammar (List Char)
  | close {k : Nat} (few : k ≤ 2) :
      IsLines quote part (List.replicate k quote) (List.replicate (k + 3) quote)
  | part {k : Nat} {a b t u : List Char} (few : k ≤ 2) (first : part a t u)
      (rest : IsLines quote part b u) :
      IsLines quote part (List.replicate k quote ++ a ++ b) (List.replicate k quote ++ t ++ u)

inductive IsBlock (quote : Char) (part : LinePart) : Grammar (List Char)
  | inline {cs u : List Char} (lines : IsLines quote part cs u) (first : NoNewline u) :
      IsBlock quote part cs (quote :: quote :: quote :: u)
  | below {cs n u : List Char} (newline : IsNewline n) (lines : IsLines quote part cs u) :
      IsBlock quote part cs (quote :: quote :: quote :: (n ++ u))

inductive IsText : Grammar (List Char)
  | basic {cs t : List Char} (basic : IsBasic cs t) : IsText cs t
  | literal {cs t : List Char} (literal : IsLiteral cs t) : IsText cs t
  | basicBlock {cs t : List Char} (block : IsBlock '"' IsBasicPart cs t) : IsText cs t
  | literalBlock {cs t : List Char} (block : IsBlock '\'' IsLiteralPart cs t) : IsText cs t

inductive IsDigits (base : Nat) : Grammar (List Nat)
  | last {c : Char} {d : Nat} (digit : digitIn? base c = some d) : IsDigits base [d] [c]
  | next {c : Char} {d : Nat} {ds : List Nat} {t : List Char} (digit : digitIn? base c = some d)
      (digits : IsDigits base ds t) : IsDigits base (d :: ds) (c :: t)
  | underscore {c : Char} {d : Nat} {ds : List Nat} {t : List Char}
      (digit : digitIn? base c = some d) (digits : IsDigits base ds t) :
      IsDigits base (d :: ds) (c :: '_' :: t)

inductive IsSign : Grammar Bool
  | none : IsSign false []
  | plus : IsSign false ['+']
  | minus : IsSign true ['-']

inductive IsWhole : Grammar (List Nat)
  | zero : IsWhole [0] ['0']
  | digits {ds : List Nat} {t : List Char} (digits : IsDigits 10 ds t)
      (leading : t.head? ≠ some '0') : IsWhole ds t

inductive IsExponent : Grammar Int
  | power {mark : Char} {negative : Bool} {ds : List Nat} {s t : List Char}
      (letter : mark = 'e' ∨ mark = 'E') (sign : IsSign negative s) (digits : IsDigits 10 ds t) :
      IsExponent (signed negative (ofDigits 10 ds)) (mark :: s ++ t)

inductive IsNumber : Grammar Number
  | integer {negative : Bool} {ds : List Nat} {n : Number} {s t : List Char}
      (sign : IsSign negative s) (whole : IsWhole ds t)
      (value : Number.ofInt? (signed negative (ofDigits 10 ds)) = some n) : IsNumber n (s ++ t)
  | based {mark : Char} {base : Nat} {ds : List Nat} {n : Number} {t : List Char}
      (letter : (mark, base) ∈ [('x', 16), ('o', 8), ('b', 2)]) (digits : IsDigits base ds t)
      (value : Number.ofInt? (ofDigits base ds) = some n) : IsNumber n ('0' :: mark :: t)
  | fraction {negative : Bool} {whole ds : List Nat} {e : Int} {n : Number} {s t u v : List Char}
      (sign : IsSign negative s) (integral : IsWhole whole t) (digits : IsDigits 10 ds u)
      (exponent : IsExponent e v ∨ (e = 0 ∧ v = []))
      (value : Number.ofDecimal? negative (whole ++ ds) (e - ds.length) = some n) :
      IsNumber n (s ++ t ++ '.' :: u ++ v)
  | power {negative : Bool} {whole : List Nat} {e : Int} {n : Number} {s t u : List Char}
      (sign : IsSign negative s) (integral : IsWhole whole t) (exponent : IsExponent e u)
      (value : Number.ofDecimal? negative whole e = some n) : IsNumber n (s ++ t ++ u)
  | infinite {negative : Bool} {s : List Char} (sign : IsSign negative s) :
      IsNumber (.float (.infinite negative)) (s ++ ['i', 'n', 'f'])
  | nan {negative : Bool} {s : List Char} (sign : IsSign negative s) :
      IsNumber (.float .nan) (s ++ ['n', 'a', 'n'])

inductive IsFixed : Nat → Grammar Nat
  | nil : IsFixed 0 0 []
  | digit {size v d : Nat} {c : Char} {t : List Char} (front : IsFixed size v t)
      (digit : digitIn? 10 c = some d) : IsFixed (size + 1) (10 * v + d) (t ++ [c])

def IsTwo (least greatest : Nat) : Grammar Nat :=
  fun v t => IsFixed 2 v t ∧ least ≤ v ∧ v ≤ greatest

inductive IsDate : List Char → Prop
  | date {year month day : Nat} {y m d : List Char} (years : IsFixed 4 year y)
      (months : IsTwo 1 12 month m) (days : IsTwo 1 (daysInMonth year month) day d) :
      IsDate (y ++ '-' :: m ++ '-' :: d)

inductive IsSecondsFraction : List Char → Prop
  | none : IsSecondsFraction []
  | digits {t : List Char} (some : t ≠ []) (digits : ∀ c ∈ t, isDigit c = true) :
      IsSecondsFraction ('.' :: t)

inductive IsTime : List Char → Prop
  | time {hour minute second : Nat} {h m s f : List Char} (hours : IsTwo 0 23 hour h)
      (minutes : IsTwo 0 59 minute m) (seconds : IsTwo 0 60 second s)
      (fraction : IsSecondsFraction f) : IsTime (h ++ ':' :: m ++ ':' :: s ++ f)

inductive IsOffset : List Char → Prop
  | none : IsOffset []
  | zero {c : Char} (letter : c = 'Z' ∨ c = 'z') : IsOffset [c]
  | ahead {c : Char} {hour minute : Nat} {h m : List Char} (sign : c = '+' ∨ c = '-')
      (hours : IsTwo 0 23 hour h) (minutes : IsTwo 0 59 minute m) :
      IsOffset (c :: h ++ ':' :: m)

inductive IsDateTime : List Char → Prop
  | date {t : List Char} (date : IsDate t) : IsDateTime t
  | time {t : List Char} (time : IsTime t) : IsDateTime t
  | both {c : Char} {t u v : List Char} (date : IsDate t) (mark : c = 'T' ∨ c = 't' ∨ c = ' ')
      (time : IsTime u) (offset : IsOffset v) : IsDateTime (t ++ c :: u ++ v)

inductive IsScalar : Grammar Scalar
  | yes : IsScalar (.boolean true) ['t', 'r', 'u', 'e']
  | no : IsScalar (.boolean false) ['f', 'a', 'l', 's', 'e']
  | text {cs t : List Char} (text : IsText cs t) : IsScalar (.text (String.ofList cs)) t
  | number {n : Number} {t : List Char} (number : IsNumber n t) : IsScalar (.number n) t
  | dateTime {t : List Char} (dateTime : IsDateTime t) : IsScalar .dateTime t

inductive IsKey : Grammar String
  | bare {t : List Char} (some : t ≠ []) (plain : ∀ c ∈ t, isBareKeyChar c = true) :
      IsKey (String.ofList t) t
  | basic {cs t : List Char} (basic : IsBasic cs t) : IsKey (String.ofList cs) t
  | literal {cs t : List Char} (literal : IsLiteral cs t) : IsKey (String.ofList cs) t

inductive IsPath : Grammar (List String)
  | last {k : String} {t : List Char} (key : IsKey k t) : IsPath [k] t
  | next {k : String} {ks : List String} {t s s' u : List Char} (key : IsKey k t)
      (before : IsSpaces s) (after : IsSpaces s') (path : IsPath ks u) :
      IsPath (k :: ks) (t ++ s ++ '.' :: s' ++ u)

inductive IsPair (item : Grammar α) : Grammar (List String × α)
  | pair {path : List String} {a : α} {p s s' t : List Char} (key : IsPath path p)
      (short : path.length ≤ nestingLimit) (before : IsSpaces s) (after : IsSpaces s')
      (value : item a t) : IsPair item (path, a) (p ++ s ++ '=' :: s' ++ t)

inductive IsItems (item : Grammar α) : Grammar (List α)
  | close {s : List Char} (layout : IsLayout s) : IsItems item [] (s ++ [']'])
  | last {a : α} {s t s' : List Char} (before : IsLayout s) (last : item a t)
      (after : IsLayout s') : IsItems item [a] (s ++ t ++ s' ++ [']'])
  | next {a : α} {as : List α} {s t s' u : List Char} (before : IsLayout s) (first : item a t)
      (after : IsLayout s') (items : IsItems item as u) :
      IsItems item (a :: as) (s ++ t ++ s' ++ ',' :: u)

inductive IsPairs (pair : Grammar α) : Grammar (List α)
  | last {a : α} {s t s' : List Char} (before : IsSpaces s) (last : pair a t)
      (after : IsSpaces s') : IsPairs pair [a] (s ++ t ++ s' ++ ['\x7d'])
  | next {a : α} {as : List α} {s t s' u : List Char} (before : IsSpaces s) (first : pair a t)
      (after : IsSpaces s') (pairs : IsPairs pair as u) :
      IsPairs pair (a :: as) (s ++ t ++ s' ++ ',' :: u)

inductive IsBraced (pair : Grammar α) : Grammar (List α)
  | empty {s : List Char} (spaces : IsSpaces s) : IsBraced pair [] (s ++ ['\x7d'])
  | pairs {as : List α} {t : List Char} (pairs : IsPairs pair as t) : IsBraced pair as t

def Diverge (p q : List String) : Prop :=
  ¬ p <+: q ∧ ¬ q <+: p

instance (p q : List String) : Decidable (Diverge p q) :=
  inferInstanceAs (Decidable (¬ p <+: q ∧ ¬ q <+: p))

/-- No key is defined twice. -/
def Apart (paths : List (List String)) : Prop :=
  paths.Pairwise Diverge

instance (paths : List (List String)) : Decidable (Apart paths) :=
  inferInstanceAs (Decidable (paths.Pairwise Diverge))

def IsArray (item : Grammar α) : Grammar (List α) :=
  fun as t => ∃ u, t = '[' :: u ∧ IsItems item as u

def IsInlineTable (item : Grammar α) : Grammar (List (List String × α)) :=
  fun as t => ∃ u, t = '\x7b' :: u ∧ IsBraced (IsPair item) as u ∧ Apart (as.map Prod.fst)

inductive Content
  | scalar (value : Scalar)
  | array
  | table

inductive IsNode (inside : Grammar Content) : Grammar Content
  | scalar {value : Scalar} {t : List Char} (scalar : IsScalar value t) :
      IsNode inside (.scalar value) t
  | array {items : List Content} {t : List Char} (array : IsArray inside items t) :
      IsNode inside .array t
  | table {pairs : List (List String × Content)} {t : List Char}
      (table : IsInlineTable inside pairs t) : IsNode inside .table t

def IsValue : (depth : Nat) → Grammar Content
  | 0 => fun content t => ∃ value, content = .scalar value ∧ IsScalar value t
  | depth + 1 => IsNode (IsValue depth)

inductive IsLineEnd : List Char → List Char → Prop
  | newline {s u n r : List Char} (spaces : IsSpaces s) (comment : IsComment u)
      (newline : IsNewline n) : IsLineEnd (s ++ u ++ n) r
  | last {s u : List Char} (spaces : IsSpaces s) (comment : IsComment u) : IsLineEnd (s ++ u) []

inductive IsBody (pair : Grammar α) (rest : List Char) : Grammar (List α)
  | nil : IsBody pair rest [] rest
  | line {a : α} {as : List α} {s t e u : List Char} (before : IsLayout s) (first : pair a t)
      (ending : IsLineEnd e u) (body : IsBody pair rest as u) :
      IsBody pair rest (a :: as) (s ++ t ++ e ++ u)

inductive IsTable (name : String) (pair : Grammar α) (rest : List Char) : Grammar (List α)
  | table {as : List α} {s s₁ k s₂ e u : List Char} (layout : IsLayout s) (before : IsSpaces s₁)
      (key : IsKey name k) (after : IsSpaces s₂) (ending : IsLineEnd e u)
      (body : IsBody pair rest as u) :
      IsTable name pair rest as (s ++ '[' :: s₁ ++ k ++ s₂ ++ ']' :: e ++ u)

inductive IsVoid : List Char → Prop
  | void {s u : List Char} (layout : IsLayout s) (comment : IsComment u) : IsVoid (s ++ u)

inductive Heading
  | table (path : List String)
  | tables (path : List String)

def Heading.path : Heading → List String
  | table path => path
  | tables path => path

inductive IsHeading : Grammar Heading
  | table {path : List String} {s t s' : List Char} (before : IsSpaces s) (key : IsPath path t)
      (short : path.length ≤ nestingLimit) (after : IsSpaces s') :
      IsHeading (.table path) ('[' :: s ++ t ++ s' ++ [']'])
  | tables {path : List String} {s t s' : List Char} (before : IsSpaces s) (key : IsPath path t)
      (short : path.length ≤ nestingLimit) (after : IsSpaces s') :
      IsHeading (.tables path) ('[' :: '[' :: s ++ t ++ s' ++ [']', ']'])

inductive EndsTable : List Char → Prop
  | nothing {r : List Char} (void : IsVoid r) : EndsTable r
  | header {s r : List Char} (layout : IsLayout s) : EndsTable (s ++ '[' :: r)

end ServerActions.Toml
