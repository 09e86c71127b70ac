import ServerActions.Text.Blank

namespace ServerActions.Toml

abbrev Mark := Nat

structure Span where
  start : Mark
  stop : Mark
  deriving DecidableEq, Inhabited

def isSpace (c : Char) : Bool :=
  c == ' ' || c == '\t'

def isLineEnd (c : Char) : Bool :=
  c == '\n' || c == '\r'

def isTextChar (c : Char) : Bool :=
  c == '\t' || (0x20 ≤ c.toNat && c.toNat != 0x7F)

def skipSpaces (s : List Char) : List Char :=
  s.dropWhile isSpace

def readNewline : List Char → Option (List Char)
  | '\n' :: s => some s
  | '\r' :: '\n' :: s => some s
  | _ => none

def skipComment : List Char → List Char
  | '#' :: s => s.dropWhile isTextChar
  | s => s

def readLineEnd (s : List Char) : Option (List Char) :=
  match skipComment (skipSpaces s) with
  | [] => some []
  | r => readNewline r

theorem length_readNewline {s r : List Char} (h : readNewline s = some r) :
    r.length < s.length := by
  unfold readNewline at h
  split at h
  · injection h with h
    subst h
    exact Nat.lt_succ_self _
  · injection h with h
    subst h
    exact Nat.lt_succ_of_lt (Nat.lt_succ_self _)
  · cases h

def skipBlankLines (s : List Char) : List Char :=
  match s with
  | [] => []
  | c :: r =>
    if isSpace c then skipBlankLines r
    else
      match h : readNewline (c :: r) with
      | none => c :: r
      | some t => have := length_readNewline h; skipBlankLines t
  termination_by s.length
  decreasing_by all_goals simp only [List.length_cons] at *; omega

def skipLayout (s : List Char) : List Char :=
  match s with
  | [] => []
  | c :: r =>
    if isSpace c then skipLayout r
    else if c = '#' then
      have := Text.length_dropWhile_le isTextChar r
      skipLayout (r.dropWhile isTextChar)
    else
      match h : readNewline (c :: r) with
      | none => c :: r
      | some t => have := length_readNewline h; skipLayout t
  termination_by s.length
  decreasing_by all_goals simp only [List.length_cons] at *; omega

theorem length_skipBlankLines (s : List Char) : (skipBlankLines s).length ≤ s.length := by
  fun_induction skipBlankLines s with
  | case1 => simp
  | case2 c r h ih => exact Nat.le_succ_of_le ih
  | case3 c r h hn => simp
  | case4 c r h t hn hlt ih => omega

end ServerActions.Toml
