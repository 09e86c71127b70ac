namespace ServerActions.Text

def split (sep : Char → Bool) : List Char → List (List Char)
  | [] => [[]]
  | c :: s =>
    if sep c then [] :: split sep s
    else
      match split sep s with
      | [] => [[c]]
      | piece :: pieces => (c :: piece) :: pieces

theorem split_ne_nil (sep : Char → Bool) (s : List Char) : split sep s ≠ [] := by
  cases s with
  | nil => simp [split]
  | cons c s =>
    simp only [split]
    split
    · simp
    · split <;> simp

theorem length_split (sep : Char → Bool) (s : List Char) :
    (split sep s).length = s.countP sep + 1 := by
  induction s with
  | nil => rfl
  | cons c s ih =>
    simp only [split]
    split
    next h => simp [h, ih]
    next h =>
      have hne := split_ne_nil sep s
      split <;> simp_all

def join (c : Char) : List (List Char) → List Char
  | [] => []
  | [piece] => piece
  | piece :: pieces => piece ++ c :: join c pieces

theorem join_cons {c : Char} {piece : List Char} {pieces : List (List Char)} (h : pieces ≠ []) :
    join c (piece :: pieces) = piece ++ c :: join c pieces := by
  cases pieces with
  | nil => exact absurd rfl h
  | cons _ _ => rfl

theorem join_split (c : Char) (s : List Char) : join c (split (· == c) s) = s := by
  induction s with
  | nil => rfl
  | cons d s ih =>
    simp only [split]
    split
    next h =>
      rw [join_cons (split_ne_nil _ _), ih]
      simp [eq_of_beq h]
    next =>
      split
      next h => exact absurd h (split_ne_nil _ _)
      next piece pieces h =>
        rw [h] at ih
        cases pieces with
        | nil => simpa [join] using ih
        | cons _ _ => simpa [join] using ih

end ServerActions.Text
