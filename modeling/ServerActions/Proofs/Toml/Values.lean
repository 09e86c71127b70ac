import Mathlib.Data.List.Forall2
import ServerActions.Proofs.Toml.Scalars
import ServerActions.Proofs.Toml.Tables

namespace ServerActions.Toml

open Text

variable {α : Type}

def around : List Char :=
  [' ', '\t', '\n', '\r', '#', '.', '=', ',', '[', ']', '\x7b', '\x7d', '\ufeff']

def isAround (c : Char) : Bool :=
  around.contains c

theorem isAround_of_isSpace {c : Char} (h : isSpace c = true) : isAround c = true := by
  simp only [isSpace, Bool.or_eq_true, beq_iff_eq] at h
  rcases h with rfl | rfl <;> decide

theorem isAround_of_isBareKeyChar {c : Char} (h : isBareKeyChar c = true) :
    isAround c = false := by
  cases hc : isAround c with
  | false => rfl
  | true =>
    have havoids : Avoids around isBareKeyChar := by decide
    simp only [isAround, List.contains_eq_mem, decide_eq_true_eq] at hc
    rw [havoids c hc] at h
    cases h

theorem stops_bare {r : List Char} {c : Char} (hc : isAround c = true) :
    Stops isBareKeyChar (c :: r) := by
  apply stops_cons
  cases h : isBareKeyChar c with
  | false => rfl
  | true =>
    rw [isAround_of_isBareKeyChar h] at hc
    cases hc

theorem IsKey.stops {k : String} {t : List Char} (h : IsKey k t) (r : List Char) :
    Stops isAround (t ++ r) := by
  cases h with
  | bare some plain =>
    cases t with
    | nil => exact absurd rfl some
    | cons c t => exact stops_cons (isAround_of_isBareKeyChar (plain c List.mem_cons_self))
  | basic basic =>
    obtain ⟨u, rfl, -⟩ := basic
    exact stops_cons (by decide)
  | literal literal =>
    obtain ⟨rfl, -⟩ := literal
    exact stops_cons (by decide)

theorem IsPath.stops {path : List String} {t : List Char} (h : IsPath path t) (r : List Char) :
    Stops isAround (t ++ r) := by
  cases h with
  | last key => exact key.stops r
  | next key =>
    simp only [List.append_assoc]
    exact key.stops _

theorem readKey_quoted {c : Char} {cs u r : List Char} (hc : isBareKeyChar c = false)
    (h : readLineText (c :: u) = some (cs, r)) :
    ∃ k, readKey (c :: u) = some (k, r) ∧ k.name = String.ofList cs := by
  refine ⟨⟨String.ofList cs, spanBetween (c :: u) r⟩, ?_, rfl⟩
  rw [readKey, List.takeWhile_cons_of_neg (by simp [hc])]
  simp [h]

theorem readKey_append {name : String} {t r : List Char} (h : IsKey name t)
    (hr : Stops isBareKeyChar r) : ∃ k, readKey (t ++ r) = some (k, r) ∧ k.name = name := by
  cases h with
  | bare some plain =>
    refine ⟨⟨String.ofList t, spanBetween (t ++ r) r⟩, ?_, rfl⟩
    have htake : (t ++ r).takeWhile isBareKeyChar = t := by
      rw [List.takeWhile_append_of_pos plain, hr.takeWhile, List.append_nil]
    have hdrop : (t ++ r).dropWhile isBareKeyChar = r := by
      rw [List.dropWhile_append_of_pos plain, hr.dropWhile]
    rw [readKey, htake, hdrop]
    split
    next => exact absurd rfl some
    next => rfl
  | basic basic =>
    have hread := readLineText_basic basic r
    obtain ⟨u, rfl, -⟩ := basic
    exact readKey_quoted (by decide) hread
  | literal literal =>
    have hread := readLineText_literal literal r
    obtain ⟨rfl, -⟩ := literal
    exact readKey_quoted (by decide) hread

theorem stops_bare_append {s r : List Char} {c : Char} (h : IsSpaces s) (hc : isAround c = true) :
    Stops isBareKeyChar (s ++ c :: r) := by
  cases s with
  | nil => exact stops_bare hc
  | cons d s => exact stops_bare (isAround_of_isSpace (h d List.mem_cons_self))

theorem readKeys_append {path : List String} {t r : List Char} (h : IsPath path t)
    (hr : Stops isBareKeyChar r) (hpoint : Stops (· == '.') (skipSpaces r)) {s : List Char}
    (hs : IsSpaces s) :
    ∃ ks, readKeys (s ++ (t ++ r)) = some (ks, skipSpaces r) ∧ names ks = path := by
  have hskip := skipSpaces_append_of_stops hs
    ((h.stops r).of_imp fun c hc => isAround_of_isSpace hc)
  induction h generalizing s with
  | last key =>
    obtain ⟨k, hk, rfl⟩ := readKey_append key hr
    refine ⟨[k], ?_, rfl⟩
    rw [readKeys, hskip, hk]
    dsimp only
    split
    next hdot => exact absurd (hpoint '.' (by rw [hdot]; rfl)) (by decide)
    next => rfl
  | @next name path t s₁ s₂ u key before after hpath ih =>
    have hsplit : t ++ s₁ ++ '.' :: s₂ ++ u ++ r = t ++ (s₁ ++ '.' :: (s₂ ++ (u ++ r))) := by simp
    obtain ⟨k, hk, rfl⟩ := readKey_append key
      (stops_bare_append (r := s₂ ++ (u ++ r)) before (by decide : isAround '.' = true))
    have hdot : skipSpaces (s₁ ++ '.' :: (s₂ ++ (u ++ r))) = '.' :: (s₂ ++ (u ++ r)) :=
      skipSpaces_append_of_stops before (stops_cons (by decide))
    obtain ⟨ks, hks, rfl⟩ := ih after (skipSpaces_append_of_stops after
      ((hpath.stops r).of_imp fun c hc => isAround_of_isSpace hc))
    refine ⟨k :: ks, ?_, rfl⟩
    rw [hsplit] at hskip ⊢
    rw [readKeys, hskip, hk]
    dsimp only
    rw [hdot]
    show (if _ then _ else _) = _
    rw [if_pos (by simp; omega), hks]
    rfl

theorem readPath_append {path : List String} {t r : List Char} (h : IsPath path t)
    (hshort : path.length ≤ nestingLimit) (hr : Stops isBareKeyChar r)
    (hpoint : Stops (· == '.') (skipSpaces r)) {s : List Char} (hs : IsSpaces s) :
    ∃ ks, readPath (s ++ (t ++ r)) = some (ks, skipSpaces r) ∧ names ks = path := by
  obtain ⟨ks, hks, rfl⟩ := readKeys_append h hr hpoint hs
  refine ⟨ks, ?_, rfl⟩
  have hlength : ks.length ≤ nestingLimit := by simpa [names] using hshort
  rw [readPath, hks, Option.filter_some, if_pos (by simpa using hlength)]

def scalarOpenings : List Char :=
  ['"', '\'', 't', 'f'] ++ figures

def openings : List Char :=
  ['[', '\x7b'] ++ scalarOpenings

/-- A reader takes the texts of a grammar from what may follow them; the nodes that it reads show
what the texts stand for. -/
structure Takes (shows : α → Node → Prop) (read : List Char → Option (Node × List Char))
    (item : Grammar α) : Prop where
  stops : ∀ a t, item a t → ∀ p : Char → Bool, Avoids openings p →
    ∀ r, Stops p (t ++ r)
  reads : ∀ a t, item a t → ∀ r, Ends r → ∃ v, read (t ++ r) = some (v, r) ∧ shows a v

structure ShowsPair (shows : α → Node → Prop) (a : List String × α) (v : List Key × Node) :
    Prop where
  path : names v.1 = a.1
  some : v.1 ≠ []
  value : shows a.2 v.2

section Takes

variable {shows : α → Node → Prop} {read : List Char → Option (Node × List Char)}
  {item : Grammar α}

theorem IsPath.ne_nil {path : List String} {t : List Char} (h : IsPath path t) : path ≠ [] := by
  cases h <;> exact List.cons_ne_nil _ _

theorem readAssignment_of_read {path : List String} {s p s₁ s₂ y r : List Char} {v : Node}
    (hs : IsSpaces s) (key : IsPath path p) (short : path.length ≤ nestingLimit)
    (before : IsSpaces s₁) (after : IsSpaces s₂) (hy : Stops isSpace y)
    (hread : read y = some (v, r)) :
    ∃ ks, readAssignment read (s ++ (p ++ (s₁ ++ '=' :: (s₂ ++ y)))) =
      some ((ks, v), skipSpaces r) ∧ names ks = path := by
  have hequals : skipSpaces (s₁ ++ '=' :: (s₂ ++ y)) = '=' :: (s₂ ++ y) :=
    skipSpaces_append_of_stops before (stops_cons (by decide))
  obtain ⟨ks, hks, hnames⟩ := readPath_append key short
    (stops_bare_append (r := s₂ ++ y) before (by decide : isAround '=' = true))
    (by rw [hequals]; exact stops_cons (by decide)) hs
  refine ⟨ks, ?_, hnames⟩
  rw [readAssignment, hks, hequals]
  simp [readChar_cons, skipSpaces_append_of_stops after hy, hread]

theorem readAssignment_append (h : Takes shows read item) {a : List String × α}
    {s t r : List Char} (hs : IsSpaces s) (ht : IsPair item a t) (hr : Ends r) :
    ∃ v, readAssignment read (s ++ (t ++ r)) = some (v, skipSpaces r) ∧ ShowsPair shows a v := by
  cases ht with
  | @pair path a p s₁ s₂ t key short before after value =>
    have hsplit : p ++ s₁ ++ '=' :: s₂ ++ t ++ r = p ++ (s₁ ++ '=' :: (s₂ ++ (t ++ r))) := by simp
    obtain ⟨v, hv, hshows⟩ := h.reads a t value r hr
    obtain ⟨ks, hks, rfl⟩ := readAssignment_of_read hs key short before after
      (h.stops a t value isSpace (by decide) r) hv
    exact ⟨(ks, v), by rw [hsplit, hks], rfl, by simpa [names] using key.ne_nil, hshows⟩

theorem Takes.solid (h : Takes shows read item) {a : α} {t : List Char} (ht : item a t)
    (r : List Char) : Solid (t ++ r) := by
  intro c hc
  refine ⟨?_, ?_, ?_⟩
  · exact h.stops a t ht isSpace (by decide) r c hc
  · simpa using h.stops a t ht (· == '#') (by decide) r c hc
  · exact h.stops a t ht isLineEnd (by decide) r c hc

theorem readItems_item (h : Takes shows read item) {a : α} {s t s' : List Char} {c : Char}
    (before : IsLayout s) (ht : item a t) (after : IsLayout s') (hc : c = ']' ∨ c = ',')
    (r : List Char) :
    ∃ v, shows a v ∧ readItems read (s ++ (t ++ (s' ++ c :: r))) =
      if c = ']' then some ([v], r)
      else (readItems read r).map fun (items, r) => (v :: items, r) := by
  have hend : isEnd c = true := by rcases hc with rfl | rfl <;> decide
  have hsolid : isSpace c = false ∧ c ≠ '#' ∧ isLineEnd c = false := by
    rcases hc with rfl | rfl <;> decide
  have hskip : skipLayout (s' ++ c :: r) = c :: r :=
    skipLayout_append_of_solid after (solid_cons hsolid r)
  obtain ⟨v, hv, hshows⟩ := h.reads a t ht (s' ++ c :: r) ((ends_cons hend r).after_layout after)
  refine ⟨v, hshows, ?_⟩
  have hitem := h.stops a t ht (· == ']') (by decide) (s' ++ c :: r)
  rw [readItems, skipLayout_append_of_solid before (h.solid ht _)]
  split
  next hclose => exact absurd (hitem ']' (by rw [hclose]; rfl)) (by decide)
  next =>
    rw [hv]
    dsimp only
    rw [hskip]
    rcases hc with rfl | rfl
    · rfl
    · show (if _ then _ else _) = _
      rw [if_pos (by simp; omega)]
      rfl

theorem readItems_append (h : Takes shows read item) {as : List α} {t : List Char}
    (ht : IsItems item as t) (r : List Char) :
    ∃ vs, readItems read (t ++ r) = some (vs, r) ∧ List.Forall₂ shows as vs := by
  induction ht with
  | @close s layout =>
    refine ⟨[], ?_, .nil⟩
    have hskip : skipLayout (s ++ (']' :: r)) = ']' :: r :=
      skipLayout_append_of_solid layout (solid_cons (by decide) r)
    rw [List.append_assoc, List.singleton_append, readItems, hskip]
    rfl
  | last before last after =>
    obtain ⟨v, hv, hread⟩ := readItems_item h before last after (.inl rfl) r
    refine ⟨[v], ?_, .cons hv .nil⟩
    simpa using hread
  | @next a as s t s' u before first after _ ih =>
    obtain ⟨v, hv, hread⟩ := readItems_item h before first after (.inr rfl) (u ++ r)
    obtain ⟨vs, hvs, hshows⟩ := ih
    refine ⟨v :: vs, ?_, .cons hv hshows⟩
    simpa [hvs] using hread

theorem IsPair.stops {a : List String × α} {t : List Char} (h : IsPair item a t)
    (r : List Char) : Stops isAround (t ++ r) := by
  cases h with
  | pair key =>
    simp only [List.append_assoc]
    exact key.stops _

theorem skipSpaces_pair {a : List String × α} {s t r : List Char} (hs : IsSpaces s)
    (ht : IsPair item a t) : skipSpaces (s ++ (t ++ r)) = t ++ r :=
  skipSpaces_append_of_stops hs ((ht.stops r).of_imp fun _ hc => isAround_of_isSpace hc)

theorem readAssignments_pair (h : Takes shows read item) {a : List String × α}
    {s t s' : List Char} {c : Char} (before : IsSpaces s) (ht : IsPair item a t)
    (after : IsSpaces s') (hc : c = '\x7d' ∨ c = ',') (r : List Char) :
    ∃ v, ShowsPair shows a v ∧ readAssignments read (s ++ (t ++ (s' ++ c :: r))) =
      if c = '\x7d' then some ([v], r)
      else (readAssignments read r).map fun (pairs, r) => (v :: pairs, r) := by
  have hend : isEnd c = true := by rcases hc with rfl | rfl <;> decide
  have hspace : isSpace c = false := by rcases hc with rfl | rfl <;> decide
  have hskip : skipSpaces (s' ++ c :: r) = c :: r :=
    skipSpaces_append_of_stops after (stops_cons hspace)
  have hends : Ends (s' ++ c :: r) := (ends_cons hend r).after_spaces after
  obtain ⟨v, hv, hshows⟩ := readAssignment_append h before ht hends
  refine ⟨v, hshows, ?_⟩
  rw [readAssignments, hv]
  dsimp only
  rw [hskip]
  rcases hc with rfl | rfl
  · rfl
  · show (if _ then _ else _) = _
    rw [if_pos (by simp; omega)]
    rfl

theorem readAssignments_append (h : Takes shows read item) {as : List (List String × α)}
    {t : List Char} (ht : IsPairs (IsPair item) as t) (r : List Char) :
    ∃ vs, readAssignments read (t ++ r) = some (vs, r) ∧
      List.Forall₂ (ShowsPair shows) as vs := by
  induction ht with
  | last before last after =>
    obtain ⟨v, hv, hread⟩ := readAssignments_pair h before last after (.inl rfl) r
    refine ⟨[v], ?_, .cons hv .nil⟩
    simpa using hread
  | @next a as s t s' u before first after _ ih =>
    obtain ⟨v, hv, hread⟩ := readAssignments_pair h before first after (.inr rfl) (u ++ r)
    obtain ⟨vs, hvs, hshows⟩ := ih
    refine ⟨v :: vs, ?_, .cons hv hshows⟩
    simpa [hvs] using hread

theorem IsPairs.skipSpaces {as : List (List String × α)} {t : List Char}
    (h : IsPairs (IsPair item) as t) (r : List Char) :
    Stops isAround (skipSpaces (t ++ r)) := by
  cases h with
  | last before last =>
    simp only [List.append_assoc]
    rw [skipSpaces_pair before last]
    exact last.stops _
  | next before first =>
    simp only [List.append_assoc]
    rw [skipSpaces_pair before first]
    exact first.stops _

theorem readBraced_append (h : Takes shows read item) {as : List (List String × α)}
    {t : List Char} (ht : IsBraced (IsPair item) as t) (r : List Char) :
    ∃ vs, readBraced read (t ++ r) = some (vs, r) ∧ List.Forall₂ (ShowsPair shows) as vs := by
  cases ht with
  | empty spaces =>
    refine ⟨[], ?_, .nil⟩
    rw [List.append_assoc, List.singleton_append, readBraced,
      skipSpaces_append_of_stops spaces (stops_cons (by decide))]
    rfl
  | pairs pairs =>
    obtain ⟨vs, hvs, hshows⟩ := readAssignments_append h pairs r
    refine ⟨vs, ?_, hshows⟩
    rw [readBraced]
    split
    next hclose => exact absurd (pairs.skipSpaces r '\x7d' (by rw [hclose]; rfl)) (by decide)
    next => exact hvs

theorem ShowsPair.forall_paths {as : List (List String × α)} {vs : Assignments}
    (h : List.Forall₂ (ShowsPair shows) as vs) :
    (vs.map fun v => names v.1) = as.map Prod.fst ∧ ∀ v ∈ vs, v.1 ≠ [] := by
  induction h with
  | nil => simp
  | cons hv _ ih =>
    constructor
    · rw [List.map_cons, List.map_cons, ih.1, hv.path]
    · exact List.forall_mem_cons.mpr ⟨hv.some, ih.2⟩

theorem exists_pair {as : List (List String × α)} {vs : Assignments}
    (h : List.Forall₂ (ShowsPair shows) as vs) {v : List Key × Node} (hv : v ∈ vs) :
    ∃ a ∈ as, ShowsPair shows a v := by
  induction h with
  | nil => cases hv
  | @cons a w as vs hshows _ ih =>
    rcases List.mem_cons.mp hv with rfl | hv
    · exact ⟨a, List.mem_cons_self, hshows⟩
    · obtain ⟨b, hb, hshows⟩ := ih hv
      exact ⟨b, List.mem_cons_of_mem _ hb, hshows⟩

theorem exists_assignment {as : List (List String × α)} {vs : Assignments}
    (h : List.Forall₂ (ShowsPair shows) as vs) {a : List String × α} (ha : a ∈ as) :
    ∃ v ∈ vs, ShowsPair shows a v := by
  induction h with
  | nil => cases ha
  | @cons b v as vs hshows _ ih =>
    rcases List.mem_cons.mp ha with rfl | ha
    · exact ⟨v, List.mem_cons_self, hshows⟩
    · obtain ⟨w, hw, hshows⟩ := ih ha
      exact ⟨w, List.mem_cons_of_mem _ hw, hshows⟩

theorem tableInBraces_apart (span : Span) {as : List (List String × α)} {vs : Assignments}
    (h : List.Forall₂ (ShowsPair shows) as vs) (hapart : Apart (as.map Prod.fst)) :
    ∃ fields, tableInBraces? span vs = some (.table (some span) .inBraces fields) ∧
      Filled vs fields := by
  obtain ⟨hpaths, hsome⟩ := ShowsPair.forall_paths h
  obtain ⟨span', fields, he, hf⟩ := assignAll_apart none (by decide : Form.inBraces ≠ .dotted)
    hsome (hpaths ▸ hapart)
  exact ⟨fields, by rw [tableInBraces?, he]; rfl, hf⟩

def ShowsItems (shows : α → Node → Prop) (as : List α) (v : Node) : Prop :=
  ∃ span vs, v = .array span vs ∧ List.Forall₂ shows as vs

def ShowsTable (shows : α → Node → Prop) (as : List (List String × α)) (v : Node) : Prop :=
  ∃ span vs fields, v = .table span .inBraces fields ∧ List.Forall₂ (ShowsPair shows) as vs ∧
    Filled vs fields

theorem takes_array {depth : Nat} (h : Takes shows (readValue depth) item) :
    Takes (ShowsItems shows) (readValue (depth + 1)) (IsArray item) where
  stops := by
    rintro as t ⟨u, rfl, -⟩ p hp r
    exact stops_cons (hp '[' (by decide))
  reads := by
    rintro as t ⟨u, rfl, items⟩ r -
    obtain ⟨vs, hvs, hshows⟩ := readItems_append h items r
    refine ⟨.array (spanBetween ('[' :: (u ++ r)) r) vs, ?_, _, vs, rfl, hshows⟩
    rw [List.cons_append, readValue, hvs]
    rfl

theorem takes_inlineTable {depth : Nat} (h : Takes shows (readValue depth) item) :
    Takes (ShowsTable shows) (readValue (depth + 1)) (IsInlineTable item) where
  stops := by
    rintro as t ⟨u, rfl, -⟩ p hp r
    exact stops_cons (hp '\x7b' (by decide))
  reads := by
    rintro as t ⟨u, rfl, braced, apart⟩ r -
    obtain ⟨vs, hvs, hshows⟩ := readBraced_append h braced r
    let span := spanBetween ('\x7b' :: (u ++ r)) r
    obtain ⟨fields, htable, hfilled⟩ := tableInBraces_apart span hshows apart
    refine ⟨.table (some span) .inBraces fields, ?_, some span, vs, fields, rfl, hshows, hfilled⟩
    rw [List.cons_append, readValue, hvs]
    show (do return (← tableInBraces? span vs, r)) = _
    rw [htable]
    rfl

end Takes

theorem IsScalar.stops {v : Scalar} {t : List Char} (h : IsScalar v t) {p : Char → Bool}
    (hp : Avoids scalarOpenings p) (r : List Char) : Stops p (t ++ r) := by
  have hfigures : Avoids figures p := fun c hc => hp c (List.mem_append_right _ hc)
  cases h with
  | yes => exact stops_cons (hp 't' (by decide))
  | no => exact stops_cons (hp 'f' (by decide))
  | text text =>
    refine text.stops (fun c hc => hp c (List.mem_append_left _ ?_)) r
    exact List.mem_append_left ['t', 'f'] hc
  | number number => exact number.stops hfigures r
  | dateTime dateTime =>
    exact dateTime.stops (fun c hc => hfigures c (List.mem_append_right _ hc)) r

theorem readValue_scalar (depth : Nat) {v : Scalar} {t : List Char} (h : IsScalar v t)
    {r : List Char} (hr : Ends r) :
    readValue depth (t ++ r) = some (.scalar (spanBetween (t ++ r) r) v, r) := by
  have hstop : Stops ['[', '\x7b'].contains (t ++ r) := h.stops (by decide) r
  unfold readValue
  split
  next hs => exact absurd (hstop '[' (by rw [hs]; rfl)) (by decide)
  next hs => exact absurd (hstop '\x7b' (by rw [hs]; rfl)) (by decide)
  next => rw [readScalar_append h hr, Option.map_some]

def Node.content : Node → Content
  | .scalar _ value => .scalar value
  | .array _ _ => .array
  | .table _ _ _ => .table
  | .tables _ => .array

def ShowsContent (content : Content) (v : Node) : Prop :=
  v.content = content

theorem takes_scalar (depth : Nat) : Takes ShowsContent (readValue depth) (IsValue 0) where
  stops := by
    rintro _ t ⟨v, rfl, h⟩ p hp r
    exact h.stops (fun c hc => hp c (List.mem_append_right _ hc)) r
  reads := by
    rintro _ t ⟨v, rfl, h⟩ r hr
    exact ⟨_, readValue_scalar depth h hr, rfl⟩

theorem takes_value (depth : Nat) :
    Takes ShowsContent (readValue depth) (IsValue depth) := by
  induction depth with
  | zero => exact takes_scalar 0
  | succ depth ih =>
    constructor
    · intro content t h
      cases h with
      | scalar scalar => exact (takes_scalar 0).stops _ t ⟨_, rfl, scalar⟩
      | array array => exact (takes_array ih).stops _ t array
      | table table => exact (takes_inlineTable ih).stops _ t table
    · intro content t h r hr
      cases h with
      | scalar scalar => exact (takes_scalar (depth + 1)).reads _ t ⟨_, rfl, scalar⟩ r hr
      | array array =>
        obtain ⟨_, hv, span, vs, rfl, -⟩ := (takes_array ih).reads _ t array r hr
        exact ⟨_, hv, rfl⟩
      | table table =>
        obtain ⟨_, hv, span, vs, fields, rfl, -⟩ := (takes_inlineTable ih).reads _ t table r hr
        exact ⟨_, hv, rfl⟩

end ServerActions.Toml
