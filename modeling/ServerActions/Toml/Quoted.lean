import ServerActions.Toml.Lexeme

namespace ServerActions.Toml

def hexDigit? (c : Char) : Option Nat :=
  if '0' ≤ c && c ≤ '9' then some (c.toNat - '0'.toNat)
  else if 'a' ≤ c && c ≤ 'f' then some (c.toNat - 'a'.toNat + 10)
  else if 'A' ≤ c && c ≤ 'F' then some (c.toNat - 'A'.toNat + 10)
  else none

def hexValue? (digits : List Char) : Option Nat :=
  digits.foldlM (fun v d => (hexDigit? d).map (16 * v + ·)) 0

def readCodePoint (n : Nat) (s : List Char) : Option (Char × List Char) :=
  if (s.take n).length = n then
    match hexValue? (s.take n) with
    | some v => if v.isValidChar then some (Char.ofNat v, s.drop n) else none
    | none => none
  else none

def readEscape : List Char → Option (Char × List Char)
  | 'b' :: s => some ('\x08', s)
  | 't' :: s => some ('\t', s)
  | 'n' :: s => some ('\n', s)
  | 'f' :: s => some ('\x0c', s)
  | 'r' :: s => some ('\r', s)
  | '"' :: s => some ('"', s)
  | '\\' :: s => some ('\\', s)
  | 'u' :: s => readCodePoint 4 s
  | 'U' :: s => readCodePoint 8 s
  | _ => none

theorem length_readCodePoint {n : Nat} {s r : List Char} {c : Char}
    (h : readCodePoint n s = some (c, r)) : r.length ≤ s.length := by
  unfold readCodePoint at h
  split at h
  · split at h
    · split at h
      · injection h with h
        injection h with _ h
        subst h
        rw [List.length_drop]
        exact Nat.sub_le _ _
      · cases h
    · cases h
  · cases h

theorem length_readEscape {s r : List Char} {c : Char} (h : readEscape s = some (c, r)) :
    r.length < s.length := by
  unfold readEscape at h
  split at h
  case h_8 => exact Nat.lt_succ_of_le (length_readCodePoint h)
  case h_9 => exact Nat.lt_succ_of_le (length_readCodePoint h)
  case h_10 => simp at h
  all_goals
    simp only [Option.some.injEq, Prod.mk.injEq] at h
    obtain ⟨_, rfl⟩ := h
    simp

def readBasic (s : List Char) : Option (List Char × List Char) :=
  match s with
  | [] => none
  | c :: s =>
    if c = '"' then some ([], s)
    else if c = '\\' then
      match h : readEscape s with
      | none => none
      | some (d, r) =>
        have := length_readEscape h
        (readBasic r).map fun (text, r) => (d :: text, r)
    else if isTextChar c then (readBasic s).map fun (text, r) => (c :: text, r)
    else none
  termination_by s.length

def readLiteral : List Char → Option (List Char × List Char)
  | [] => none
  | c :: s =>
    if c = '\'' then some ([], s)
    else if isTextChar c then (readLiteral s).map fun (text, r) => (c :: text, r)
    else none

inductive QuoteRun
  | inside (n : Nat)
  | closing (n : Nat)
  | tooLong

def QuoteRun.ofLength (n : Nat) : QuoteRun :=
  if n < 3 then .inside n else if n ≤ 5 then .closing (n - 3) else .tooLong

def readLiteralLines (s : List Char) : Option (List Char × List Char) :=
  match s with
  | [] => none
  | c :: s =>
    if c = '\'' then
      have := Text.length_dropWhile_le (· == '\'') s
      let r := s.dropWhile (· == '\'')
      match QuoteRun.ofLength ((s.takeWhile (· == '\'')).length + 1) with
      | .inside n =>
        (readLiteralLines r).map fun (text, r) => (List.replicate n '\'' ++ text, r)
      | .closing n => some (List.replicate n '\'', r)
      | .tooLong => none
    else if isTextChar c then (readLiteralLines s).map fun (text, r) => (c :: text, r)
    else
      match h : readNewline (c :: s) with
      | none => none
      | some r =>
        have := length_readNewline h
        (readLiteralLines r).map fun (text, r) => ('\n' :: text, r)
  termination_by s.length
  decreasing_by all_goals simp only [List.length_cons] at *; omega

def readBasicLines (s : List Char) : Option (List Char × List Char) :=
  match s with
  | [] => none
  | c :: s =>
    if c = '"' then
      have := Text.length_dropWhile_le (· == '"') s
      let r := s.dropWhile (· == '"')
      match QuoteRun.ofLength ((s.takeWhile (· == '"')).length + 1) with
      | .inside n =>
        (readBasicLines r).map fun (text, r) => (List.replicate n '"' ++ text, r)
      | .closing n => some (List.replicate n '"', r)
      | .tooLong => none
    else if c = '\\' then
      match hn : readNewline (skipSpaces s) with
      | some r =>
        have := length_readNewline hn
        have := Text.length_dropWhile_le isSpace s
        have := length_skipBlankLines r
        readBasicLines (skipBlankLines r)
      | none =>
        match h : readEscape s with
        | none => none
        | some (d, r) =>
          have := length_readEscape h
          (readBasicLines r).map fun (text, r) => (d :: text, r)
    else if isTextChar c then (readBasicLines s).map fun (text, r) => (c :: text, r)
    else
      match h : readNewline (c :: s) with
      | none => none
      | some r =>
        have := length_readNewline h
        (readBasicLines r).map fun (text, r) => ('\n' :: text, r)
  termination_by s.length
  decreasing_by all_goals simp only [List.length_cons, skipSpaces] at *; omega

def skipFirstNewline (s : List Char) : List Char :=
  (readNewline s).getD s

def readLineText : List Char → Option (List Char × List Char)
  | '"' :: s => readBasic s
  | '\'' :: s => readLiteral s
  | _ => none

def readText : List Char → Option (List Char × List Char)
  | '"' :: '"' :: '"' :: s => readBasicLines (skipFirstNewline s)
  | '\'' :: '\'' :: '\'' :: s => readLiteralLines (skipFirstNewline s)
  | s => readLineText s

end ServerActions.Toml
