import ServerActions.Proofs.Toml.Layout

namespace ServerActions.Toml

open Text

theorem readEscape_append {c : Char} {t : List Char} (h : IsEscape c t) (r : List Char) :
    readEscape (t ++ r) = some (c, r) := by
  cases h with
  | short escape =>
    unfold shortEscape? at escape
    split at escape
    case h_8 => cases escape
    all_goals
      obtain rfl := Option.some.inj escape
      rfl
  | @code mark ds n size value valid =>
    have hcode : readCodePoint ds.length (ds ++ r) = some (Char.ofNat n, r) := by
      rw [readCodePoint, List.take_left, if_pos rfl, value]
      simp [valid]
    simp only [List.mem_cons, Prod.mk.injEq, List.not_mem_nil, or_false] at size
    rcases size with ⟨rfl, hl⟩ | ⟨rfl, hl⟩
    all_goals
      rw [hl] at hcode
      exact hcode

theorem readBasic_append {cs u : List Char} (h : IsBasicChars cs u) (r : List Char) :
    readBasic (u ++ '"' :: r) = some (cs, r) := by
  induction h with
  | nil => rw [List.nil_append, readBasic, if_pos rfl]
  | @cons c cs t u char chars ih =>
    rw [List.append_assoc]
    cases char with
    | plain text quote backslash =>
      rw [List.singleton_append, readBasic, if_neg quote, if_neg backslash, if_pos text, ih]
      rfl
    | escape escape =>
      have hread := readEscape_append escape (u ++ '"' :: r)
      rw [List.cons_append, readBasic, if_neg (by decide), if_pos rfl]
      split
      next hn => simp [hread] at hn
      next hn =>
        rw [hread] at hn
        obtain ⟨rfl, rfl⟩ := Prod.mk.inj (Option.some.inj hn)
        rw [ih]
        rfl

theorem readLiteral_append {cs : List Char} (h : ∀ c ∈ cs, IsLiteralChar c) (r : List Char) :
    readLiteral (cs ++ '\'' :: r) = some (cs, r) := by
  induction cs with
  | nil => rw [List.nil_append, readLiteral, if_pos rfl]
  | cons c cs ih =>
    rw [List.forall_mem_cons] at h
    rw [List.cons_append, readLiteral, if_neg h.1.2, if_pos h.1.1, ih h.2]
    rfl

theorem readLineText_basic {cs t : List Char} (h : IsBasic cs t) (r : List Char) :
    readLineText (t ++ r) = some (cs, r) := by
  obtain ⟨u, rfl, hu⟩ := h
  have hread := readBasic_append hu r
  simpa [readLineText] using hread

theorem readLineText_literal {cs t : List Char} (h : IsLiteral cs t) (r : List Char) :
    readLineText (t ++ r) = some (cs, r) := by
  obtain ⟨rfl, hcs⟩ := h
  have hread := readLiteral_append hcs r
  simpa [readLineText] using hread

def prepend (a : List Char) : List Char × List Char → List Char × List Char :=
  fun (cs, r) => (a ++ cs, r)

def afterQuotes (quote : Char) (read : List Char → Option (List Char × List Char)) (s : List Char) :
    QuoteRun → Option (List Char × List Char)
  | .inside k => (read s).map (prepend (List.replicate k quote))
  | .closing k => some (List.replicate k quote, s)
  | .tooLong => none

structure ReadsParts (quote : Char) (part : LinePart)
    (read : List Char → Option (List Char × List Char)) : Prop where
  quotes : ∀ k s, Stops (· == quote) s →
    read (List.replicate (k + 1) quote ++ s) = afterQuotes quote read s (.ofLength (k + 1))
  opens : ∀ {a t u}, part a t u → t ≠ [] ∧ Stops (· == quote) t
  part : ∀ {a t u} r, part a t u → 3 ≤ u.length →
    read (t ++ (u ++ r)) = (read (u ++ r)).map (prepend a)

section Lines

variable {quote : Char} {part : LinePart} {read : List Char → Option (List Char × List Char)}
  {cs t r : List Char}

theorem IsLines.three_le_length (h : IsLines quote part cs t) : 3 ≤ t.length := by
  induction h with
  | close few => simp
  | part few first rest ih =>
    simp only [List.length_append]
    omega

theorem ReadsParts.read_inside (hread : ReadsParts quote part read) {k : Nat} (few : k ≤ 2)
    {s : List Char} (hs : Stops (· == quote) s) :
    read (List.replicate k quote ++ s) = (read s).map (prepend (List.replicate k quote)) := by
  cases k with
  | zero =>
    have hid : prepend (List.replicate 0 quote) = id := rfl
    rw [hid, Option.map_id]
    rfl
  | succ k =>
    have hrun : QuoteRun.ofLength (k + 1) = .inside (k + 1) := by
      rw [QuoteRun.ofLength, if_pos (by omega)]
    rw [hread.quotes k s hs, hrun, afterQuotes]

theorem ReadsParts.read_closing (hread : ReadsParts quote part read) {k : Nat} (few : k ≤ 2)
    {s : List Char} (hs : Stops (· == quote) s) :
    read (List.replicate (k + 3) quote ++ s) = some (List.replicate k quote, s) := by
  have hrun : QuoteRun.ofLength (k + 2 + 1) = .closing k := by
    rw [QuoteRun.ofLength, if_neg (by omega), if_pos (by omega)]
    rfl
  rw [hread.quotes (k + 2) s hs, hrun, afterQuotes]

theorem ReadsParts.read_lines (hread : ReadsParts quote part read) (h : IsLines quote part cs t)
    (hr : Stops (· == quote) r) : read (t ++ r) = some (cs, r) := by
  induction h with
  | close few => exact hread.read_closing few hr
  | @part k a b t u few first rest ih =>
    obtain ⟨hne, hstop⟩ := hread.opens first
    have hfront : Stops (· == quote) (t ++ (u ++ r)) := by
      obtain ⟨c, v, rfl⟩ := List.exists_cons_of_ne_nil hne
      exact stops_cons (hstop c rfl)
    rw [List.append_assoc, List.append_assoc, hread.read_inside few hfront,
      hread.part r first rest.three_le_length, ih]
    simp [prepend]

end Lines

theorem takeWhile_replicate {quote : Char} {s : List Char} (hs : Stops (· == quote) s) (k : Nat) :
    (List.replicate k quote ++ s).takeWhile (· == quote) = List.replicate k quote ∧
      (List.replicate k quote ++ s).dropWhile (· == quote) = s := by
  have hall : ∀ c ∈ List.replicate k quote, (c == quote) = true := by
    intro c hc
    rw [List.eq_of_mem_replicate hc, beq_self_eq_true]
  rw [List.takeWhile_append_of_pos hall, List.dropWhile_append_of_pos hall, hs.takeWhile,
    hs.dropWhile, List.append_nil]
  exact ⟨rfl, rfl⟩

theorem readsParts_literal : ReadsParts '\'' IsLiteralPart readLiteralLines := by
  constructor
  · intro k s hs
    obtain ⟨htake, hdrop⟩ := takeWhile_replicate hs k
    rw [List.replicate_succ, List.cons_append, readLiteralLines, if_pos rfl]
    simp only [htake, hdrop, List.length_replicate]
    cases QuoteRun.ofLength (k + 1) <;> rfl
  · intro a t u h
    cases h with
    | char char => exact ⟨by simp, stops_cons (by simpa using char.2)⟩
    | newline newline => cases newline <;> exact ⟨by simp, stops_cons (by decide)⟩
  · intro a t u r h _
    cases h with
    | char char =>
      rw [List.singleton_append, readLiteralLines, if_neg char.2, if_pos char.1]
      rfl
    | newline newline =>
      have hn := readNewline_append newline (u ++ r)
      obtain ⟨c, v, rfl, hc⟩ := newline.exists_cons
      have hplain : c ≠ '\'' ∧ isTextChar c = false := by rcases hc with rfl | rfl <;> decide
      rw [List.cons_append] at hn ⊢
      rw [readLiteralLines, if_neg hplain.1, if_neg (by simp [hplain.2])]
      split
      next h => simp [hn] at h
      next h =>
        rw [hn] at h
        obtain rfl := Option.some.inj h
        rfl

theorem IsEscape.exists_cons {c : Char} {t : List Char} (h : IsEscape c t) :
    ∃ e u, t = e :: u ∧ isSpace e = false ∧ isLineEnd e = false := by
  cases h with
  | @short e _ escape =>
    refine ⟨e, [], rfl, ?_⟩
    unfold shortEscape? at escape
    split at escape
    case h_8 => cases escape
    all_goals decide
  | @code mark ds n size =>
    refine ⟨mark, ds, rfl, ?_⟩
    simp only [List.mem_cons, Prod.mk.injEq, List.not_mem_nil, or_false] at size
    rcases size with ⟨rfl, -⟩ | ⟨rfl, -⟩ <;> decide

theorem NoNewline.append {u : List Char} (h : NoNewline u) (hu : 2 ≤ u.length) (r : List Char) :
    NoNewline (u ++ r) := by
  intro n v hn he
  have hl : n.length ≤ u.length := by
    cases hn with
    | feed => exact Nat.le_of_succ_le hu
    | returnFeed => exact hu
  have hprefix : n <+: u ++ r := ⟨v, he.symm⟩
  obtain ⟨w, rfl⟩ := List.prefix_of_prefix_length_le hprefix (List.prefix_append u r) hl
  exact h n w hn rfl

theorem readBasicLines_escape {s r : List Char} {c : Char}
    (hn : readNewline (skipSpaces s) = none) (h : readEscape s = some (c, r)) :
    readBasicLines ('\\' :: s) = (readBasicLines r).map (prepend [c]) := by
  rw [readBasicLines, if_neg (by decide), if_pos rfl]
  split
  next hs => simp [hn] at hs
  next =>
    split
    next he => simp [h] at he
    next he =>
      rw [h] at he
      obtain ⟨rfl, rfl⟩ := Prod.mk.inj (Option.some.inj he)
      rfl

theorem readBasicLines_joined {s r : List Char} (h : readNewline (skipSpaces s) = some r) :
    readBasicLines ('\\' :: s) = readBasicLines (skipBlankLines r) := by
  rw [readBasicLines, if_neg (by decide), if_pos rfl]
  split
  next hs =>
    rw [h] at hs
    obtain rfl := Option.some.inj hs
    rfl
  next hs => simp [h] at hs

theorem readsParts_basic : ReadsParts '"' IsBasicPart readBasicLines := by
  constructor
  · intro k s hs
    obtain ⟨htake, hdrop⟩ := takeWhile_replicate hs k
    rw [List.replicate_succ, List.cons_append, readBasicLines, if_pos rfl]
    simp only [htake, hdrop, List.length_replicate]
    cases QuoteRun.ofLength (k + 1) <;> rfl
  · intro a t u h
    cases h with
    | char char =>
      cases char with
      | plain text quote => exact ⟨by simp, stops_cons (by simpa using quote)⟩
      | escape => exact ⟨by simp, stops_cons (by decide)⟩
    | newline newline => cases newline <;> exact ⟨by simp, stops_cons (by decide)⟩
    | joined => exact ⟨by simp, stops_cons (by decide)⟩
  · intro a t u r h hu
    cases h with
    | char char =>
      cases char with
      | plain text quote backslash =>
        rw [List.singleton_append, readBasicLines, if_neg quote, if_neg backslash, if_pos text]
        rfl
      | escape escape =>
        have hread := readEscape_append escape (u ++ r)
        obtain ⟨e, v, rfl, hspace, hline⟩ := escape.exists_cons
        -- no line is joined: the escape is neither a space nor the end of the line
        have hstop : Stops isSpace (e :: (v ++ (u ++ r))) := stops_cons hspace
        have hnone : NoNewline (e :: (v ++ (u ++ r))) := by
          intro n w hn he
          obtain ⟨c, x, rfl, hc⟩ := hn.exists_cons
          obtain rfl := (List.cons.inj he).1
          rcases hc with rfl | rfl <;> cases hline
        apply readBasicLines_escape _ hread
        rw [List.cons_append, skipSpaces, hstop.dropWhile]
        exact readNewline_eq_none hnone
    | newline newline =>
      have hn := readNewline_append newline (u ++ r)
      obtain ⟨c, v, rfl, hc⟩ := newline.exists_cons
      have hplain : c ≠ '"' ∧ c ≠ '\\' ∧ isTextChar c = false := by
        rcases hc with rfl | rfl <;> decide
      rw [List.cons_append] at hn ⊢
      rw [readBasicLines, if_neg hplain.1, if_neg hplain.2.1, if_neg (by simp [hplain.2.2])]
      split
      next h => simp [hn] at h
      next h =>
        rw [hn] at h
        obtain rfl := Option.some.inj h
        rfl
    | @joined s n t _ spaces newline blank solid =>
      have hfront : readNewline (skipSpaces (s ++ (n ++ (t ++ (u ++ r))))) =
          some (t ++ (u ++ r)) := by
        rw [skipSpaces_append_of_stops spaces (newline.stops (by decide) _),
          readNewline_append newline]
      have hstop : Stops isSpace (u ++ r) := by
        obtain ⟨c, v, rfl⟩ := List.exists_cons_of_length_pos (by omega : 0 < u.length)
        exact stops_cons (solid.1 c rfl)
      have hid : prepend [] = id := rfl
      have happend : '\\' :: s ++ n ++ t ++ (u ++ r) = '\\' :: (s ++ (n ++ (t ++ (u ++ r)))) := by
        simp
      rw [happend, readBasicLines_joined hfront, skipBlankLines_append blank,
        skipBlankLines_eq_self hstop (solid.2.append (by omega) r), hid, Option.map_id]
      rfl

theorem readText_block {quote : Char} {part : LinePart}
    {read : List Char → Option (List Char × List Char)} (hread : ReadsParts quote part read)
    (hquote : ∀ s, readText (quote :: quote :: quote :: s) = read (skipFirstNewline s))
    {cs t r : List Char} (h : IsBlock quote part cs t) (hr : Stops (· == quote) r) :
    readText (t ++ r) = some (cs, r) := by
  cases h with
  | @inline _ u lines first =>
    have hlength := lines.three_le_length
    have hnone : readNewline (u ++ r) = none := readNewline_eq_none (first.append (by omega) r)
    refine (hquote _).trans ?_
    rw [skipFirstNewline, List.append_eq, hnone, Option.getD_none, hread.read_lines lines hr]
  | @below _ n u newline lines =>
    have happend : n ++ u ++ r = n ++ (u ++ r) := List.append_assoc _ _ _
    refine (hquote _).trans ?_
    rw [skipFirstNewline, List.append_eq, happend, readNewline_append newline, Option.getD_some,
      hread.read_lines lines hr]

theorem readText_line {quote : Char} {u r : List Char} (hu : Stops (· == quote) u)
    (hr : Stops (· == quote) r) :
    readText (quote :: u ++ [quote] ++ r) = readLineText (quote :: u ++ [quote] ++ r) := by
  -- three quotes are there only if the text is empty and another quote follows it
  have hthree (s : List Char) : quote :: u ++ [quote] ++ r ≠ quote :: quote :: quote :: s := by
    intro h
    cases u with
    | nil =>
      obtain rfl : r = quote :: s := (List.cons.inj (List.cons.inj h).2).2
      have hc := hr quote rfl
      simp at hc
    | cons c u =>
      have hc := hu c rfl
      simp [(List.cons.inj (List.cons.inj h).2).1] at hc
  unfold readText
  split
  next heq =>
    obtain rfl : quote = '"' := (List.cons.inj heq).1
    exact absurd heq (hthree _)
  next heq =>
    obtain rfl : quote = '\'' := (List.cons.inj heq).1
    exact absurd heq (hthree _)
  next => rfl

theorem IsBasicChars.stops {cs u : List Char} (h : IsBasicChars cs u) : Stops (· == '"') u := by
  cases h with
  | nil => exact stops_nil
  | cons char chars =>
    cases char with
    | plain text quote => exact stops_cons (by simpa using quote)
    | escape => exact stops_cons (by decide)

theorem readText_append {cs t r : List Char} (h : IsText cs t) (hr : Ends r) :
    readText (t ++ r) = some (cs, r) := by
  have hbasic : Stops (· == '"') r := hr.stops (by decide)
  have hliteral : Stops (· == '\'') r := hr.stops (by decide)
  cases h with
  | basic basic =>
    have hread := readLineText_basic basic r
    obtain ⟨u, rfl, hu⟩ := basic
    rw [readText_line hu.stops hbasic, hread]
  | literal literal =>
    have hread := readLineText_literal literal r
    obtain ⟨rfl, hcs⟩ := literal
    have hstop : Stops (· == '\'') cs := fun c hc => by
      simpa using (hcs c (List.mem_of_mem_head? hc)).2
    rw [readText_line hstop hliteral, hread]
  | basicBlock block => exact readText_block readsParts_basic (fun _ => rfl) block hbasic
  | literalBlock block => exact readText_block readsParts_literal (fun _ => rfl) block hliteral

def escaped (c : Char) : List Char :=
  if c = '"' || c = '\\' then ['\\', c]
  else if isTextChar c then [c]
  else ['\\', 'u', '0', '0', Nat.digitChar (c.toNat / 16), Nat.digitChar (c.toNat % 16)]

def between (cs : List Char) : List Char :=
  '"' :: cs.flatMap escaped ++ ['"']

theorem hexValue_digitChar : ∀ n < 128,
    hexValue? ['0', '0', Nat.digitChar (n / 16), Nat.digitChar (n % 16)] = some n := by
  decide

theorem toNat_lt_of_isTextChar {c : Char} (h : isTextChar c = false) : c.toNat < 128 := by
  simp only [isTextChar, Bool.or_eq_false_iff, Bool.and_eq_false_iff, decide_eq_false_iff_not,
    bne_eq_false_iff_eq] at h
  omega

theorem isBasicChar_escaped (c : Char) : IsBasicChar c (escaped c) := by
  unfold escaped
  split
  next hshort =>
    simp only [Bool.or_eq_true, decide_eq_true_eq] at hshort
    rcases hshort with rfl | rfl <;> exact .escape (.short rfl)
  next hshort =>
    simp only [Bool.or_eq_true, decide_eq_true_eq, not_or] at hshort
    split
    next htext => exact .plain htext hshort.1 hshort.2
    next htext =>
      have hsmall := toNat_lt_of_isTextChar (Bool.eq_false_iff.mpr htext)
      apply IsBasicChar.escape
      rw [← Char.ofNat_toNat c]
      exact .code (by simp) (by simpa using hexValue_digitChar c.toNat hsmall) c.valid

theorem isBasicChars_of_plain {cs : List Char}
    (h : ∀ c ∈ cs, isTextChar c = true ∧ c ≠ '"' ∧ c ≠ '\\') : IsBasicChars cs cs := by
  induction cs with
  | nil => exact .nil
  | cons c cs ih =>
    obtain ⟨⟨text, quote, backslash⟩, hcs⟩ := List.forall_mem_cons.mp h
    exact .cons (.plain text quote backslash) (ih hcs)

theorem isBasic_between (cs : List Char) : IsBasic cs (between cs) := by
  refine ⟨cs.flatMap escaped, rfl, ?_⟩
  induction cs with
  | nil => exact .nil
  | cons c cs ih => exact .cons (isBasicChar_escaped c) ih

end ServerActions.Toml
