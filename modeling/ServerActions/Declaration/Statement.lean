import ServerActions.Declaration.Basic
import ServerActions.Declaration.Names
import ServerActions.Text.Occurrence

namespace ServerActions.Declaration

open Text

def isQuote (c : Char) : Bool :=
  c == '"' || c == '\''

def readBraces (s : List Char) : Option (List Char × List Char) := do
  until? (· == '}') (← afterWord? (· == ·) ['{'] s)

def readQuoted : List Char → Option (List Char × List Char)
  | [] => none
  | c :: s => if isQuote c then until? isQuote s else none

/-- Reads `import { names } from "path"`, with keywords in any case. -/
def readImport (s : List Char) : Option (ImportBinding × List Char) := do
  let s ← afterWord? sameLetter "import".toList s
  let s ← afterBlanks? s
  let (body, s) ← readBraces s
  let s ← afterBlanks? s
  let s ← afterWord? sameLetter "from".toList s
  let s ← afterBlanks? s
  let (path, s) ← readQuoted s
  return (⟨splitNames body, String.ofList path⟩, s)

/-- Reads `factory({ names })`. -/
def readCall (factory : List Char) (s : List Char) : Option (EntryPoints × List Char) := do
  let s ← afterWord? (· == ·) factory s
  let s ← afterWord? (· == ·) ['('] s
  let (body, s) ← readBraces (s.dropWhile isBlank)
  let s ← afterWord? (· == ·) [')'] (s.dropWhile isBlank)
  return (⟨splitNames body⟩, s)

theorem readBraces_suffix {s b r : List Char} (h : readBraces s = some (b, r)) :
    ∃ t, s = t ++ r := by
  unfold readBraces at h
  obtain ⟨s', hs, hb⟩ := Option.bind_eq_some_iff.1 h
  clear h
  obtain ⟨t, -, rfl⟩ := afterWord_eq_some hs
  obtain ⟨-, -, c, -, rfl⟩ := until_eq_some hb
  exact ⟨t ++ b ++ [c], by simp⟩

theorem readQuoted_suffix {s b r : List Char} (h : readQuoted s = some (b, r)) :
    ∃ t, s = t ++ r := by
  cases s with
  | nil => cases h
  | cons c s =>
    rw [readQuoted] at h
    split at h
    · obtain ⟨-, -, d, -, rfl⟩ := until_eq_some h
      exact ⟨c :: b ++ [d], by simp⟩
    · cases h

theorem readImport_suffix {s r : List Char} {b : ImportBinding}
    (h : readImport s = some (b, r)) : ∃ t, t ≠ [] ∧ s = t ++ r := by
  rw [readImport] at h
  replace ⟨s₁, h₁, h⟩ := Option.bind_eq_some_iff.1 h
  obtain ⟨s₂, h₂, h⟩ := Option.bind_eq_some_iff.1 h
  obtain ⟨⟨_, s₃⟩, h₃, h⟩ := Option.bind_eq_some_iff.1 h
  obtain ⟨s₄, h₄, h⟩ := Option.bind_eq_some_iff.1 h
  obtain ⟨s₅, h₅, h⟩ := Option.bind_eq_some_iff.1 h
  obtain ⟨s₆, h₆, h⟩ := Option.bind_eq_some_iff.1 h
  obtain ⟨⟨_, s₇⟩, h₇, h⟩ := Option.bind_eq_some_iff.1 h
  obtain ⟨-, rfl⟩ := Prod.mk.inj (Option.some.inj h)
  obtain ⟨t₁, hl, rfl⟩ := afterWord_eq_some h₁
  obtain ⟨t₂, -, -, rfl⟩ := afterBlanks_eq_some h₂
  obtain ⟨t₃, rfl⟩ := readBraces_suffix h₃
  obtain ⟨t₄, -, -, rfl⟩ := afterBlanks_eq_some h₄
  obtain ⟨t₅, -, rfl⟩ := afterWord_eq_some h₅
  obtain ⟨t₆, -, -, rfl⟩ := afterBlanks_eq_some h₆
  obtain ⟨t₇, rfl⟩ := readQuoted_suffix h₇
  refine ⟨t₁ ++ t₂ ++ t₃ ++ t₄ ++ t₅ ++ t₆ ++ t₇, ?_, by simp⟩
  intro ht
  simp only [List.append_eq_nil_iff] at ht
  rw [ht.1.1.1.1.1.1] at hl
  cases hl

theorem readCall_suffix {factory s r : List Char} {e : EntryPoints}
    (h : readCall factory s = some (e, r)) : ∃ t, t ≠ [] ∧ s = t ++ r := by
  rw [readCall] at h
  replace ⟨s₁, h₁, h⟩ := Option.bind_eq_some_iff.1 h
  obtain ⟨s₂, h₂, h⟩ := Option.bind_eq_some_iff.1 h
  obtain ⟨⟨_, s₃⟩, h₃, h⟩ := Option.bind_eq_some_iff.1 h
  obtain ⟨s₄, h₄, h⟩ := Option.bind_eq_some_iff.1 h
  obtain ⟨-, rfl⟩ := Prod.mk.inj (Option.some.inj h)
  obtain ⟨t₁, -, rfl⟩ := afterWord_eq_some h₁
  obtain ⟨t₂, hl, rfl⟩ := afterWord_eq_some h₂
  obtain ⟨t₃, h₃⟩ := readBraces_suffix h₃
  obtain ⟨t₄, -, h₄⟩ := afterWord_eq_some h₄
  refine ⟨t₁ ++ t₂ ++ s₂.takeWhile isBlank ++ t₃ ++ s₃.takeWhile isBlank ++ t₄, ?_, ?_⟩
  · intro ht
    simp only [List.append_eq_nil_iff] at ht
    rw [ht.1.1.1.1.2] at hl
    cases hl
  · simp only [List.append_assoc]
    rw [← h₄, List.takeWhile_append_dropWhile, ← h₃, List.takeWhile_append_dropWhile]

def importPattern : Pattern ImportBinding where
  read := readImport
  read_suffix := readImport_suffix

def callPattern (factory : String) : Pattern EntryPoints where
  read := readCall factory.toList
  read_suffix := readCall_suffix

def importsIn (content : String) : List ImportBinding :=
  importPattern.values content.toList

def callsIn (factory content : String) : List EntryPoints :=
  (callPattern factory).values content.toList

end Declaration

def Declaration.read? (factory content : String) : Option Declaration :=
  match Declaration.callsIn factory content with
  | [] => none
  | call :: calls => some ⟨Declaration.importsIn content, call, calls.length⟩

end ServerActions
