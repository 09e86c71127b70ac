import ServerActions.Proofs.Toml.Grammar

namespace ServerActions.Toml

open Text

theorem readNewline_append {n : List Char} (h : IsNewline n) (r : List Char) :
    readNewline (n ++ r) = some r := by
  cases h <;> rfl

theorem readNewline_eq_none {s : List Char} (h : NoNewline s) : readNewline s = none := by
  unfold readNewline
  split
  next r => exact absurd rfl (h ['\n'] r .feed)
  next r => exact absurd rfl (h ['\r', '\n'] r .returnFeed)
  next => rfl

theorem IsNewline.exists_cons {n : List Char} (h : IsNewline n) :
    ∃ c u, n = c :: u ∧ (c = '\n' ∨ c = '\r') := by
  cases h with
  | feed => exact ⟨_, _, rfl, .inl rfl⟩
  | returnFeed => exact ⟨_, _, rfl, .inr rfl⟩

theorem IsNewline.stops {p : Char → Bool} {n : List Char} (h : IsNewline n)
    (hp : p '\n' = false ∧ p '\r' = false) (r : List Char) : Stops p (n ++ r) := by
  cases h with
  | feed => exact stops_cons hp.1
  | returnFeed => exact stops_cons hp.2

theorem skipSpaces_append {t : List Char} (h : IsSpaces t) (r : List Char) :
    skipSpaces (t ++ r) = skipSpaces r :=
  List.dropWhile_append_of_pos h

theorem skipSpaces_append_of_stops {t r : List Char} (h : IsSpaces t) (hr : Stops isSpace r) :
    skipSpaces (t ++ r) = r := by
  rw [skipSpaces_append h, skipSpaces, hr.dropWhile]

theorem skipComment_append {t r : List Char} (h : IsComment t) (hr : Stops isTextChar r) :
    skipComment (t ++ r) = r := by
  cases h with
  | none =>
    rw [List.nil_append]
    unfold skipComment
    split
    next => exact absurd (hr '#' rfl) (by decide)
    next => rfl
  | marked plain =>
    show (_ ++ r).dropWhile isTextChar = r
    rw [List.dropWhile_append_of_pos plain, hr.dropWhile]

def Solid (s : List Char) : Prop :=
  ∀ c ∈ s.head?, isSpace c = false ∧ c ≠ '#' ∧ isLineEnd c = false

theorem solid_cons {c : Char} (h : isSpace c = false ∧ c ≠ '#' ∧ isLineEnd c = false)
    (s : List Char) : Solid (c :: s) := by
  intro d hd
  obtain rfl : c = d := Option.some.inj hd
  exact h

theorem Solid.readNewline_eq {s : List Char} (h : Solid s) : readNewline s = none := by
  unfold readNewline
  split
  next => exact absurd (h '\n' rfl).2.2 (by decide)
  next => exact absurd (h '\r' rfl).2.2 (by decide)
  next => rfl

theorem skipLayout_of_solid {s : List Char} (h : Solid s) : skipLayout s = s := by
  cases s with
  | nil => rw [skipLayout]
  | cons c s =>
    obtain ⟨hs, hc, -⟩ := h c rfl
    rw [skipLayout, if_neg (by simp [hs]), if_neg hc]
    split
    next => rfl
    next hn =>
      rw [h.readNewline_eq] at hn
      cases hn

theorem skipLayout_newline {n : List Char} (h : IsNewline n) (r : List Char) :
    skipLayout (n ++ r) = skipLayout r := by
  obtain ⟨c, u, rfl, hc⟩ := h.exists_cons
  have hn := readNewline_append h r
  have hsolid : isSpace c = false ∧ c ≠ '#' := by rcases hc with rfl | rfl <;> decide
  rw [List.cons_append] at hn ⊢
  rw [skipLayout, if_neg (by simp [hsolid.1]), if_neg hsolid.2]
  split
  next h => simp [hn] at h
  next h =>
    rw [hn] at h
    obtain rfl := Option.some.inj h
    rfl

theorem skipLayout_append {t : List Char} (h : IsLayout t) (r : List Char) :
    skipLayout (t ++ r) = skipLayout r := by
  induction h with
  | nil => rfl
  | space space layout ih => rw [List.cons_append, skipLayout, if_pos space, ih]
  | @line u n t comment newline layout ih =>
    rw [List.append_assoc, List.append_assoc]
    cases comment with
    | none => rw [List.nil_append, skipLayout_newline newline, ih]
    | marked plain =>
      have hstop : Stops isTextChar (n ++ (t ++ r)) := newline.stops (by decide) _
      rw [List.cons_append, skipLayout, if_neg (by decide), if_pos rfl,
        List.dropWhile_append_of_pos plain, hstop.dropWhile, skipLayout_newline newline, ih]

theorem skipLayout_append_of_solid {t r : List Char} (h : IsLayout t) (hr : Solid r) :
    skipLayout (t ++ r) = r := by
  rw [skipLayout_append h, skipLayout_of_solid hr]

theorem skipBlankLines_append {t : List Char} (h : IsBlank t) (r : List Char) :
    skipBlankLines (t ++ r) = skipBlankLines r := by
  induction h with
  | nil => rfl
  | space space blank ih => rw [List.cons_append, skipBlankLines, if_pos space, ih]
  | @line n t newline blank ih =>
    have hn := readNewline_append newline (t ++ r)
    obtain ⟨c, u, rfl, hc⟩ := newline.exists_cons
    have hspace : isSpace c = false := by rcases hc with rfl | rfl <;> decide
    rw [List.append_assoc]
    rw [List.cons_append] at hn ⊢
    rw [skipBlankLines, if_neg (by simp [hspace])]
    split
    next h => simp [hn] at h
    next h =>
      rw [hn] at h
      obtain rfl := Option.some.inj h
      exact ih

theorem skipBlankLines_eq_self {s : List Char} (hs : Stops isSpace s) (hn : NoNewline s) :
    skipBlankLines s = s := by
  cases s with
  | nil => rw [skipBlankLines]
  | cons c s =>
    rw [skipBlankLines, if_neg (by simp [hs c rfl])]
    split
    next => rfl
    next h =>
      rw [readNewline_eq_none hn] at h
      cases h

def isEnd (c : Char) : Bool :=
  ['\n', '\r', ',', ']', '\x7d', '#'].contains c

def Ends (r : List Char) : Prop :=
  Stops (!isEnd ·) (skipSpaces r)

theorem ends_nil : Ends [] :=
  stops_nil

theorem ends_cons {c : Char} (h : isEnd c = true) (r : List Char) : Ends (c :: r) := by
  have havoids : Avoids ['\n', '\r', ',', ']', '\x7d', '#'] isSpace := by decide
  have hmem := h
  simp only [isEnd, List.contains_eq_mem, decide_eq_true_eq] at hmem
  have hstop : Stops isSpace (c :: r) := stops_cons (havoids c hmem)
  rw [Ends, skipSpaces, hstop.dropWhile]
  exact stops_cons (by simp [h])

theorem Ends.after_spaces {t r : List Char} (h : Ends r) (ht : IsSpaces t) : Ends (t ++ r) := by
  rwa [Ends, skipSpaces_append ht]

theorem IsNewline.ends {n : List Char} (h : IsNewline n) (r : List Char) : Ends (n ++ r) := by
  cases h <;> exact ends_cons (by decide) _

theorem Ends.after_layout {t r : List Char} (h : Ends r) (ht : IsLayout t) : Ends (t ++ r) := by
  induction ht with
  | nil => exact h
  | space space layout ih => exact ih.after_spaces (t := [_]) (by simpa [IsSpaces] using space)
  | line comment newline layout ih =>
    rw [List.append_assoc, List.append_assoc]
    cases comment with
    | none => exact newline.ends _
    | marked => exact ends_cons (by decide) _

theorem Ends.skipSpaces {r : List Char} (h : Ends r) : Ends (skipSpaces r) := by
  have hstop : Stops isSpace (Toml.skipSpaces r) := stops_dropWhile isSpace r
  rw [Ends, Toml.skipSpaces, hstop.dropWhile]
  exact h

theorem Ends.of_space {c : Char} {r : List Char} (h : Ends (c :: r)) (hc : isSpace c = true) :
    Ends r := by
  rwa [Ends, Toml.skipSpaces, List.dropWhile_cons_of_pos hc] at h

def endings : List Char :=
  [' ', '\t', '\n', '\r', ',', ']', '\x7d', '#']

theorem Ends.stops {r : List Char} (h : Ends r) {p : Char → Bool}
    (hp : Avoids endings p) : Stops p r := by
  intro c hc
  apply hp
  by_cases hs : isSpace c = true
  · simp only [isSpace, Bool.or_eq_true, beq_iff_eq] at hs
    rcases hs with rfl | rfl <;> decide
  · have hstop : Stops isSpace r := by
      intro d hd
      obtain rfl : c = d := Option.mem_unique hc hd
      simpa using hs
    have hend : isEnd c = true := by
      rw [Ends, Toml.skipSpaces, hstop.dropWhile] at h
      simpa using h c hc
    simp only [isEnd, List.contains_eq_mem, decide_eq_true_eq] at hend
    exact List.mem_cons_of_mem _ (List.mem_cons_of_mem _ hend)

end ServerActions.Toml
