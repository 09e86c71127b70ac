import ServerActions.Text.Blank

/-!
Occurrences of a pattern in a text.  A pattern reads one occurrence off the front of a text; the
occurrences of a text are found from left to right, each at the first place where the pattern reads
one after the end of the one before.
-/

namespace ServerActions.Text

/-- What a pattern reads off the front of a text: a value, and the text that follows the characters
it is read from. -/
structure Pattern (α : Type) where
  read : List Char → Option (α × List Char)
  read_suffix : ∀ {s a r}, read s = some (a, r) → ∃ t, t ≠ [] ∧ s = t ++ r

structure Occurrence (α : Type) where
  start : Nat
  stop : Nat
  value : α
  deriving DecidableEq

variable {α : Type}

namespace Pattern

def occurrencesFrom (p : Pattern α) : (skip start : Nat) → List Char → List (Occurrence α)
  | _, _, [] => []
  | skip + 1, start, _ :: s => p.occurrencesFrom skip (start + 1) s
  | 0, start, c :: s =>
    match p.read (c :: s) with
    | none => p.occurrencesFrom 0 (start + 1) s
    | some (a, r) =>
      ⟨start, start + (s.length + 1 - r.length), a⟩ ::
        p.occurrencesFrom (s.length - r.length) (start + 1) s

def occurrences (p : Pattern α) (s : List Char) : List (Occurrence α) :=
  p.occurrencesFrom 0 0 s

def values (p : Pattern α) (s : List Char) : List α :=
  (p.occurrences s).map Occurrence.value

theorem occurrencesFrom_append (p : Pattern α) (start : Nat) (t s : List Char) :
    p.occurrencesFrom t.length start (t ++ s) = p.occurrencesFrom 0 (start + t.length) s := by
  induction t generalizing start with
  | nil => rfl
  | cons c t ih =>
    rw [List.length_cons, List.cons_append, occurrencesFrom, ih]
    congr 1
    omega

theorem occurrencesFrom_of_read {p : Pattern α} {start : Nat} {s r : List Char} {a : α}
    (h : p.read s = some (a, r)) :
    p.occurrencesFrom 0 start s =
      ⟨start, start + (s.length - r.length), a⟩ ::
        p.occurrencesFrom 0 (start + (s.length - r.length)) r := by
  obtain ⟨t, ht, rfl⟩ := p.read_suffix h
  obtain ⟨c, t, rfl⟩ := List.exists_cons_of_ne_nil ht
  rw [List.cons_append] at h ⊢
  have hs : (t ++ r).length - r.length = t.length := by simp
  have hc : (t ++ r).length + 1 - r.length = t.length + 1 := by
    rw [List.length_append]
    omega
  rw [occurrencesFrom, h]
  simp only [hs, hc, List.length_cons, occurrencesFrom_append, Nat.add_assoc, Nat.add_comm 1]

theorem occurrencesFrom_of_read_none {p : Pattern α} {start : Nat} {c : Char} {s : List Char}
    (h : p.read (c :: s) = none) :
    p.occurrencesFrom 0 start (c :: s) = p.occurrencesFrom 0 (start + 1) s := by
  rw [occurrencesFrom, h]

end Pattern

def afterWord? (same : Char → Char → Bool) : List Char → List Char → Option (List Char)
  | [], s => some s
  | _ :: _, [] => none
  | w :: ws, c :: s => if same w c then afterWord? same ws s else none

theorem afterWord_eq_some {same : Char → Char → Bool} {w s r : List Char}
    (h : afterWord? same w s = some r) : ∃ t, t.length = w.length ∧ s = t ++ r := by
  induction w generalizing s with
  | nil => exact ⟨[], rfl, Option.some.inj h⟩
  | cons c w ih =>
    cases s with
    | nil => cases h
    | cons d s =>
      rw [afterWord?] at h
      split at h
      · obtain ⟨t, ht, rfl⟩ := ih h
        exact ⟨d :: t, congrArg (· + 1) ht, rfl⟩
      · cases h

def sameLetter (w c : Char) : Bool :=
  w == c.toLower

def until? (stop : Char → Bool) (s : List Char) : Option (List Char × List Char) :=
  match s.takeWhile (!stop ·), s.dropWhile (!stop ·) with
  | c :: cs, _ :: r => some (c :: cs, r)
  | _, _ => none

theorem until_eq_some {stop : Char → Bool} {s b r : List Char} (h : until? stop s = some (b, r)) :
    b ≠ [] ∧ (∀ c ∈ b, stop c = false) ∧ ∃ c, stop c = true ∧ s = b ++ c :: r := by
  unfold until? at h
  split at h
  next c cs d r' hb hr =>
    injection h with h
    obtain ⟨rfl, rfl⟩ := Prod.mk.inj h
    refine ⟨List.cons_ne_nil _ _, ?_, d, ?_, ?_⟩
    · intro x hx
      have := List.all_eq_true.1 (List.all_takeWhile (p := (!stop ·)) (l := s)) x (hb ▸ hx)
      simpa using this
    · have := List.head?_dropWhile_not (!stop ·) s
      rw [hr] at this
      simpa using this
    · rw [← hb, ← hr, List.takeWhile_append_dropWhile]
  next => cases h

end ServerActions.Text
