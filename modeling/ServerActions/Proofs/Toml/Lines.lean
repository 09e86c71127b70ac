import ServerActions.Proofs.Toml.Values

namespace ServerActions.Toml

open Text

variable {α : Type}

theorem skipSpaces_skipSpaces (s : List Char) : skipSpaces (skipSpaces s) = skipSpaces s := by
  have hstop : Stops isSpace (skipSpaces s) := stops_dropWhile isSpace s
  exact hstop.dropWhile

theorem readLineEnd_skipSpaces (s : List Char) : readLineEnd (skipSpaces s) = readLineEnd s := by
  rw [readLineEnd, skipSpaces_skipSpaces, ← readLineEnd]

theorem IsComment.ends {u r : List Char} (h : IsComment u) (hr : Ends r) : Ends (u ++ r) := by
  cases h with
  | none => exact hr
  | marked => exact ends_cons (by decide) _

theorem IsComment.stops_space {u r : List Char} (h : IsComment u) (hr : Stops isSpace r) :
    Stops isSpace (u ++ r) := by
  cases h with
  | none => exact hr
  | marked => exact stops_cons (by decide)

theorem IsLineEnd.ends {e r : List Char} (h : IsLineEnd e r) : Ends (e ++ r) := by
  cases h with
  | newline spaces comment newline =>
    simp only [List.append_assoc]
    exact (comment.ends (newline.ends r)).after_spaces spaces
  | last spaces comment =>
    simp only [List.append_assoc]
    exact (comment.ends ends_nil).after_spaces spaces

theorem IsLineEnd.readLineEnd_eq {e r : List Char} (h : IsLineEnd e r) :
    readLineEnd (e ++ r) = some r := by
  cases h with
  | @newline s u n r spaces comment newline =>
    have hspaces : skipSpaces (s ++ (u ++ (n ++ r))) = u ++ (n ++ r) :=
      skipSpaces_append_of_stops spaces (comment.stops_space (newline.stops (by decide) r))
    have hread := readNewline_append newline r
    obtain ⟨c, v, rfl, -⟩ := newline.exists_cons
    rw [List.append_assoc, List.append_assoc, readLineEnd, hspaces,
      skipComment_append comment (newline.stops (by decide) r)]
    exact hread
  | @last s u spaces comment =>
    have hspaces : skipSpaces (s ++ (u ++ [])) = u ++ [] :=
      skipSpaces_append_of_stops spaces (comment.stops_space stops_nil)
    rw [List.append_assoc, readLineEnd, hspaces, skipComment_append comment stops_nil]

theorem readLines_cons {s u r : List Char} {line : Line} (hs : skipLayout s = u) (hu : u ≠ [])
    (hread : readLine u = some (line, r)) (hlt : r.length < s.length) :
    readLines s = (readLines r).map (line :: ·) := by
  rw [readLines, hs]
  split
  next => exact absurd rfl hu
  next =>
    rw [hread]
    show (if _ then _ else _) = _
    rw [if_pos hlt]

section Body

variable {shows : α → Node → Prop} {item : Grammar α}

theorem readLine_assignment {x e r : List Char} {v : List Key × Node} (hx : Stops isAround x)
    (hv : readAssignment (readValue nestingLimit) x = some (v, skipSpaces (e ++ r)))
    (he : IsLineEnd e r) : readLine x = some (.assignment v.1 v.2, r) := by
  unfold readLine
  split
  next => exact absurd (hx '[' rfl) (by decide)
  next => simp [hv, readLineEnd_skipSpaces, he.readLineEnd_eq]

theorem readLine_pair (h : Takes shows (readValue nestingLimit) item) {a : List String × α}
    {t e r : List Char} (ht : IsPair item a t) (he : IsLineEnd e r) :
    ∃ v, readLine (t ++ (e ++ r)) = some (.assignment v.1 v.2, r) ∧ ShowsPair shows a v := by
  have hnil : IsSpaces [] := by simp [IsSpaces]
  obtain ⟨v, hv, hshows⟩ := readAssignment_append h hnil ht he.ends
  exact ⟨v, readLine_assignment (ht.stops (e ++ r)) hv he, hshows⟩

theorem solid_of_stops_around {s : List Char} (h : Stops isAround s) : Solid s := by
  intro c hc
  have hspace : Stops isSpace s := h.of_imp fun _ => isAround_of_isSpace
  have hmark : Stops (· == '#') s := h.of_imp fun d hd => by
    obtain rfl := beq_iff_eq.mp hd
    decide
  have hline : Stops isLineEnd s := h.of_imp fun d hd => by
    simp only [isLineEnd, Bool.or_eq_true, beq_iff_eq] at hd
    rcases hd with rfl | rfl <;> decide
  exact ⟨hspace c hc, by simpa using hmark c hc, hline c hc⟩

theorem IsPair.ne_nil {a : List String × α} {t : List Char} (h : IsPair item a t) : t ≠ [] := by
  cases h
  simp

def assignments (pairs : Assignments) : List Line :=
  pairs.map fun v => .assignment v.1 v.2

theorem readLines_body (h : Takes shows (readValue nestingLimit) item) {rest t : List Char}
    {as : List (List String × α)} (ht : IsBody (IsPair item) rest as t) :
    ∃ vs, readLines t = (readLines rest).map (assignments vs ++ ·) ∧
      List.Forall₂ (ShowsPair shows) as vs := by
  induction ht with
  | nil => exact ⟨[], by simp [assignments], .nil⟩
  | @line a as s t e u before first ending _ ih =>
    obtain ⟨v, hv, hshows⟩ := readLine_pair h first ending
    obtain ⟨vs, hvs, hall⟩ := ih
    refine ⟨v :: vs, ?_, .cons hshows hall⟩
    have hskip : skipLayout (s ++ t ++ e ++ u) = t ++ (e ++ u) := by
      rw [List.append_assoc, List.append_assoc,
        skipLayout_append_of_solid before (solid_of_stops_around (first.stops _))]
    have hne := first.ne_nil
    have hpos := List.length_pos_iff.mpr hne
    rw [readLines_cons hskip (by simp [hne]) hv (by simp; omega), hvs, Option.map_map]
    rfl

def ShowsHeading : Heading → Header → Prop
  | .table path, .table _ ks => names ks = path
  | .tables path, .tables _ ks => names ks = path
  | _, _ => False

theorem ShowsHeading.of_single {name : String} {header : Header}
    (h : ShowsHeading (.table [name]) header) :
    ∃ span key, header = .table span [key] ∧ key.name = name := by
  cases header with
  | tables => exact h.elim
  | table span ks =>
    obtain ⟨key, rfl, hkey⟩ := names_eq_single h
    exact ⟨span, key, rfl, hkey⟩

theorem readPath_bracket {path : List String} {s p s' : List Char} (before : IsSpaces s)
    (hpath : IsPath path p) (short : path.length ≤ nestingLimit) (after : IsSpaces s')
    (r : List Char) :
    ∃ ks, readPath (s ++ (p ++ (s' ++ ']' :: r))) = some (ks, ']' :: r) ∧ names ks = path := by
  have hclose : skipSpaces (s' ++ ']' :: r) = ']' :: r :=
    skipSpaces_append_of_stops after (stops_cons (by decide))
  obtain ⟨ks, hks, hnames⟩ := readPath_append hpath short
    (stops_bare_append (r := r) after (by decide : isAround ']' = true))
    (by rw [hclose]; exact stops_cons (by decide)) before
  exact ⟨ks, by rw [hks, hclose], hnames⟩

theorem readHeader_heading {h : Heading} {t : List Char} (ht : IsHeading h t) (r : List Char) :
    ∃ header, readHeader (t ++ r) = some (header, r) ∧ ShowsHeading h header := by
  cases ht with
  | @table path s p s' before key short after =>
    obtain ⟨ks, hks, hnames⟩ := readPath_bracket before key short after r
    have hsplit : '[' :: s ++ p ++ s' ++ [']'] ++ r = '[' :: (s ++ (p ++ (s' ++ ']' :: r))) := by
      simp
    rw [hsplit]
    unfold readHeader
    split
    next r' hdouble =>
      -- the key, or a space before it, stands where a second bracket would
      have hspaces : skipSpaces (s ++ (p ++ (s' ++ ']' :: r))) = p ++ (s' ++ ']' :: r) :=
        skipSpaces_append_of_stops before
          ((key.stops _).of_imp fun c hc => isAround_of_isSpace hc)
      rw [(List.cons.inj hdouble).2] at hspaces
      have hbracket : skipSpaces ('[' :: r') = '[' :: r' := rfl
      rw [hbracket] at hspaces
      exact absurd (key.stops _ '[' (by rw [← hspaces]; rfl)) (by decide)
    next r' hsingle =>
      rw [← (List.cons.inj hsingle).2, hks]
      exact ⟨_, rfl, hnames⟩
    next hnone => exact absurd rfl (hnone _)
  | @tables path s p s' before key short after =>
    obtain ⟨ks, hks, hnames⟩ := readPath_bracket before key short after (']' :: r)
    have hsplit : '[' :: '[' :: s ++ p ++ s' ++ [']', ']'] ++ r =
        '[' :: '[' :: (s ++ (p ++ (s' ++ ']' :: ']' :: r))) := by
      simp
    rw [hsplit, readHeader, hks]
    exact ⟨_, rfl, hnames⟩

theorem IsHeading.exists_cons {h : Heading} {t : List Char} (ht : IsHeading h t) :
    ∃ u, t = '[' :: u := by
  cases ht <;> exact ⟨_, rfl⟩

theorem readLine_heading {h : Heading} {t e r : List Char} (ht : IsHeading h t)
    (he : IsLineEnd e r) :
    ∃ header, readLine (t ++ (e ++ r)) = some (.header header, r) ∧ ShowsHeading h header := by
  obtain ⟨header, hheader, hshows⟩ := readHeader_heading ht (e ++ r)
  obtain ⟨u, rfl⟩ := ht.exists_cons
  rw [List.cons_append] at hheader
  exact ⟨header, by simp [readLine, hheader, he.readLineEnd_eq], hshows⟩

theorem readLines_heading {h : Heading} {s t e u : List Char} (layout : IsLayout s)
    (ht : IsHeading h t) (he : IsLineEnd e u) :
    ∃ header, readLines (s ++ t ++ e ++ u) = (readLines u).map (.header header :: ·) ∧
      ShowsHeading h header := by
  obtain ⟨header, hread, hshows⟩ := readLine_heading ht he
  obtain ⟨v, rfl⟩ := ht.exists_cons
  have hskip : skipLayout (s ++ '[' :: v ++ e ++ u) = '[' :: v ++ (e ++ u) := by
    rw [List.append_assoc, List.append_assoc]
    exact skipLayout_append_of_solid layout (solid_cons (by decide) _)
  exact ⟨header, readLines_cons hskip (List.cons_ne_nil _ _) hread (by simp; omega), hshows⟩

theorem readLines_header {name : String} {s s₁ k s₂ e u : List Char} (layout : IsLayout s)
    (before : IsSpaces s₁) (key : IsKey name k) (after : IsSpaces s₂) (ending : IsLineEnd e u) :
    ∃ span header, header.name = name ∧ readLines (s ++ '[' :: s₁ ++ k ++ s₂ ++ ']' :: e ++ u) =
      (readLines u).map (.header (.table span [header]) :: ·) := by
  have hheading : IsHeading (.table [name]) ('[' :: s₁ ++ k ++ s₂ ++ [']']) :=
    .table before (.last key) (by simp [nestingLimit]) after
  obtain ⟨header, hread, hshows⟩ := readLines_heading layout hheading ending
  obtain ⟨span, header, rfl, hname⟩ := hshows.of_single
  refine ⟨span, header, hname, ?_⟩
  rw [← hread]
  simp

theorem readLines_table (h : Takes shows (readValue nestingLimit) item) {name : String}
    {rest t : List Char} {as : List (List String × α)}
    (ht : IsTable name (IsPair item) rest as t) :
    ∃ span key vs, key.name = name ∧
      readLines t = (readLines rest).map (.header (.table span [key]) :: assignments vs ++ ·) ∧
      List.Forall₂ (ShowsPair shows) as vs := by
  cases ht with
  | @table _ s s₁ k s₂ e u layout before key after ending body =>
    obtain ⟨span, header, hname, hread⟩ := readLines_header layout before key after ending
    obtain ⟨vs, hvs, hpairs⟩ := readLines_body h body
    refine ⟨span, header, vs, hname, ?_, hpairs⟩
    rw [hread, hvs, Option.map_map]
    rfl

end Body

theorem IsVoid.readLines_eq {r : List Char} (h : IsVoid r) : readLines r = some [] := by
  cases h with
  | @void s u layout comment =>
    have hskip : skipLayout (s ++ u) = [] := by
      rw [skipLayout_append layout]
      cases comment with
      | none => rw [skipLayout]
      | @marked t plain =>
        have hplain : (t ++ []).dropWhile isTextChar = [] := List.dropWhile_append_of_pos plain
        rw [List.append_nil] at hplain
        rw [skipLayout, if_neg (by decide), if_pos rfl, hplain, skipLayout]
    rw [readLines, hskip]

end ServerActions.Toml
