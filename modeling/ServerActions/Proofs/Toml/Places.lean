import ServerActions.Proofs.Toml.Documents
import ServerActions.Toml.Excerpt

namespace ServerActions.Toml

open Text

structure KeyLine where
  front : List Char
  key : String
  content : Content

namespace KeyLine

def number (l : KeyLine) : Nat :=
  l.front.count '\n' + 1

def pair (l : KeyLine) : List String × Content :=
  ([l.key], l.content)

end KeyLine

inductive IsKeyLines (rest : List Char) : List Char → Grammar (List KeyLine)
  | nil {front : List Char} : IsKeyLines rest front [] rest
  | line {front s k s₁ s₂ t e u : List Char} {key : String} {content : Content}
      {lines : List KeyLine} (layout : IsLayout s) (name : IsKey key k) (before : IsSpaces s₁)
      (after : IsSpaces s₂) (value : IsValue nestingLimit content t) (ending : IsLineEnd e u)
      (more : IsKeyLines rest (front ++ s ++ k ++ s₁ ++ '=' :: s₂ ++ t ++ e) lines u) :
      IsKeyLines rest front (⟨front ++ s, key, content⟩ :: lines)
        (s ++ k ++ s₁ ++ '=' :: s₂ ++ t ++ e ++ u)

inductive IsSingleTable (name : String) : Grammar (List KeyLine)
  | table {s s₁ k s₂ e u rest : List Char} {lines : List KeyLine} (layout : IsLayout s)
      (before : IsSpaces s₁) (key : IsKey name k) (after : IsSpaces s₂) (ending : IsLineEnd e u)
      (body : IsKeyLines rest (s ++ '[' :: s₁ ++ k ++ s₂ ++ ']' :: e) lines u)
      (void : IsVoid rest) :
      IsSingleTable name lines (s ++ '[' :: s₁ ++ k ++ s₂ ++ ']' :: e ++ u)

theorem IsBody.exists_keyLines {rest t : List Char} {pairs : List (List String × Content)}
    (h : IsBody (IsPair (IsValue nestingLimit)) rest pairs t)
    (hsingle : ∀ a ∈ pairs, a.1.length = 1) (front : List Char) :
    ∃ lines, IsKeyLines rest front lines t ∧ lines.map KeyLine.pair = pairs := by
  induction h generalizing front with
  | nil => exact ⟨[], .nil, rfl⟩
  | @line a pairs s t e u layout pair ending _ ih =>
    have hlength := hsingle a List.mem_cons_self
    cases pair with
    | @pair path content p s₁ s₂ v path short before after value =>
      cases path with
      | next _ _ _ path =>
        have hpos := List.length_pos_iff.mpr path.ne_nil
        rw [List.length_cons] at hlength
        omega
      | @last key _ name =>
        obtain ⟨lines, hlines, rfl⟩ := ih (fun b hb => hsingle b (List.mem_cons_of_mem _ hb))
          (front ++ s ++ p ++ s₁ ++ '=' :: s₂ ++ v ++ e)
        refine ⟨⟨front ++ s, key, content⟩ :: lines, ?_, rfl⟩
        have hline := IsKeyLines.line layout name before after value ending hlines
        simpa only [List.append_assoc] using hline

theorem IsTable.exists_keyLines {name : String} {rest t : List Char}
    {pairs : List (List String × Content)}
    (h : IsTable name (IsPair (IsValue nestingLimit)) rest pairs t) (hrest : IsVoid rest)
    (hsingle : ∀ a ∈ pairs, a.1.length = 1) :
    ∃ lines, IsSingleTable name lines t ∧ lines.map KeyLine.pair = pairs := by
  cases h with
  | table layout before key after ending body =>
    obtain ⟨lines, hlines, hpairs⟩ := body.exists_keyLines hsingle _
    exact ⟨lines, .table layout before key after ending hlines hrest, hpairs⟩

theorem newline_not_mem_of_forall {p : Char → Bool} {t : List Char} (h : ∀ c ∈ t, p c = true)
    (hp : p '\n' = false) : '\n' ∉ t := by
  intro hm
  rw [h _ hm] at hp
  cases hp

theorem hexDigit_isSome {ds : List Char} {v n : Nat}
    (h : ds.foldlM (fun v d => (hexDigit? d).map (16 * v + ·)) v = some n) :
    ∀ d ∈ ds, (hexDigit? d).isSome = true := by
  induction ds generalizing v with
  | nil =>
    intro d hd
    cases hd
  | cons c ds ih =>
    obtain ⟨w, hw, hrest⟩ := Option.bind_eq_some_iff.mp h
    obtain ⟨x, hx, -⟩ := Option.map_eq_some_iff.mp hw
    intro d hd
    rcases List.mem_cons.mp hd with rfl | hd
    · exact Option.isSome_of_eq_some hx
    · exact ih hrest d hd

theorem IsEscape.newline_not_mem {c : Char} {t : List Char} (h : IsEscape c t) : '\n' ∉ t := by
  cases h with
  | @short e _ escape =>
    intro hm
    obtain rfl := List.mem_singleton.mp hm
    cases escape
  | @code mark ds n size value =>
    have hmark : '\n' ≠ mark := by
      rintro rfl
      simp at size
    have hdigits := newline_not_mem_of_forall (hexDigit_isSome value) (by decide)
    simp [hmark, hdigits]

theorem IsBasicChars.newline_not_mem {cs t : List Char} (h : IsBasicChars cs t) : '\n' ∉ t := by
  induction h with
  | nil => exact List.not_mem_nil
  | cons char _ ih =>
    rw [List.mem_append, not_or]
    refine ⟨?_, ih⟩
    cases char with
    | plain text =>
      apply newline_not_mem_of_forall (p := isTextChar) _ (by decide)
      simpa using text
    | escape escape => simpa using escape.newline_not_mem

theorem IsKey.newline_not_mem {name : String} {t : List Char} (h : IsKey name t) : '\n' ∉ t := by
  cases h with
  | bare _ plain => exact newline_not_mem_of_forall plain (by decide)
  | basic basic =>
    obtain ⟨u, rfl, chars⟩ := basic
    simpa using chars.newline_not_mem
  | literal literal =>
    obtain ⟨rfl, plain⟩ := literal
    simpa using newline_not_mem_of_forall (fun c hc => (plain c hc).1) (by decide)

theorem IsSpaces.newline_not_mem {t : List Char} (h : IsSpaces t) : '\n' ∉ t :=
  newline_not_mem_of_forall h (by decide)

theorem Excerpt.line_ofSpan (front back : List Char) {span : Span} (h : span.start = back.length) :
    (Excerpt.ofSpan (front ++ back) span).line = front.count '\n' + 1 := by
  have hfront : (front ++ back).take ((front ++ back).length - span.start) = front := by
    rw [h, List.length_append, Nat.add_sub_cancel, List.take_left]
  rw [Excerpt.ofSpan, hfront]

theorem span_readValue {depth : Nat} {s r : List Char} {v : Node}
    (h : readValue depth s = some (v, r)) : v.span? = some (spanBetween s r) := by
  unfold readValue at h
  split at h
  · obtain ⟨⟨items, r'⟩, -, h⟩ := Option.bind_eq_some_iff.mp h
    obtain ⟨rfl, rfl⟩ := Prod.mk.inj (Option.some.inj h)
    rfl
  · obtain ⟨⟨pairs, r'⟩, -, h⟩ := Option.bind_eq_some_iff.mp h
    obtain ⟨table, htable, h⟩ := Option.bind_eq_some_iff.mp h
    obtain ⟨rfl, rfl⟩ := Prod.mk.inj (Option.some.inj h)
    obtain ⟨own, -, htable⟩ := Option.bind_eq_some_iff.mp htable
    cases own <;> cases htable
    rfl
  · obtain ⟨⟨value, r'⟩, -, h⟩ := Option.map_eq_some_iff.mp h
    obtain ⟨rfl, rfl⟩ := Prod.mk.inj h
    rfl

structure ShowsLine (document : List Char) (l : KeyLine) (f : Key × Node) : Prop where
  name : f.1.name = l.key
  content : f.2.content = l.content
  place : ∃ span, f.2.span? = some span ∧ (Excerpt.ofSpan document span).line = l.number

def single (f : Key × Node) : List Key × Node :=
  ([f.1], f.2)

theorem readLine_keyLine {key : String} {content : Content} {front k s₁ s₂ t e u : List Char}
    (name : IsKey key k) (before : IsSpaces s₁) (after : IsSpaces s₂)
    (value : IsValue nestingLimit content t) (ending : IsLineEnd e u) :
    ∃ f, readLine (k ++ (s₁ ++ '=' :: (s₂ ++ (t ++ (e ++ u))))) =
        some (.assignment [f.1] f.2, u) ∧
      ShowsLine (front ++ (k ++ (s₁ ++ '=' :: (s₂ ++ (t ++ (e ++ u))))))
        ⟨front, key, content⟩ f := by
  obtain ⟨v, hv, hcontent⟩ := (takes_value nestingLimit).reads content t value _ ending.ends
  have hstop : Stops isSpace (t ++ (e ++ u)) :=
    (takes_value nestingLimit).stops content t value isSpace (by decide) _
  obtain ⟨ks, hread, hnames⟩ := readAssignment_of_read (by simp [IsSpaces] : IsSpaces [])
    (.last name) (by simp [nestingLimit]) before after hstop hv
  obtain ⟨key', rfl, hkey⟩ := names_eq_single hnames
  refine ⟨(key', v), readLine_assignment (name.stops _) hread ending, hkey, hcontent,
    _, span_readValue hv, ?_⟩
  have hsplit : front ++ (k ++ (s₁ ++ '=' :: (s₂ ++ (t ++ (e ++ u))))) =
      (front ++ k ++ s₁ ++ '=' :: s₂) ++ (t ++ (e ++ u)) := by simp
  have hcount {x : List Char} (hx : '\n' ∉ x) : x.count '\n' = 0 := List.count_eq_zero.mpr hx
  rw [hsplit, Excerpt.line_ofSpan _ _ rfl, KeyLine.number]
  simp [hcount name.newline_not_mem, hcount before.newline_not_mem, hcount after.newline_not_mem]

theorem readLines_keyLines {rest front t : List Char} {lines : List KeyLine}
    (ht : IsKeyLines rest front lines t) :
    ∃ fields : List (Key × Node),
      readLines t = (readLines rest).map (assignments (fields.map single) ++ ·) ∧
        List.Forall₂ (ShowsLine (front ++ t)) lines fields := by
  induction ht with
  | nil => exact ⟨[], by simp [assignments], .nil⟩
  | @line front s k s₁ s₂ t e u key content lines layout name before after value ending _ ih =>
    obtain ⟨f, hread, hshows⟩ :=
      @readLine_keyLine key content (front ++ s) k s₁ s₂ t e u name before after value ending
    obtain ⟨fields, hlines, hall⟩ := ih
    have hsplit : s ++ k ++ s₁ ++ '=' :: s₂ ++ t ++ e ++ u =
        s ++ (k ++ (s₁ ++ '=' :: (s₂ ++ (t ++ (e ++ u))))) := by simp
    have hdocument : front ++ (s ++ (k ++ (s₁ ++ '=' :: (s₂ ++ (t ++ (e ++ u)))))) =
        front ++ s ++ k ++ s₁ ++ '=' :: s₂ ++ t ++ e ++ u := by simp
    have hskip := skipLayout_append_of_solid layout
      (solid_of_stops_around (name.stops (s₁ ++ '=' :: (s₂ ++ (t ++ (e ++ u))))))
    refine ⟨f :: fields, ?_, ?_⟩
    · rw [hsplit, readLines_cons hskip (by simp) hread (by simp; omega), hlines, Option.map_map]
      rfl
    · rw [List.append_assoc] at hshows
      rw [hsplit]
      refine .cons hshows ?_
      rw [hdocument]
      exact hall

theorem lookup_eq_none {name : String} {fields : List (Key × Node)}
    (h : name ∉ fields.map fun f => f.1.name) : lookup name fields = none := by
  induction fields with
  | nil => rfl
  | cons f fields ih =>
    rw [List.map_cons, List.mem_cons, not_or] at h
    rw [lookup, if_neg (Ne.symm h.1), ih h.2]

theorem assignAll_single {form : Form} (hform : form ≠ .dotted) {fields own : List (Key × Node)}
    (hnodup : ((own ++ fields).map fun f => f.1.name).Nodup) (span : Option Span) :
    ∃ span', assignAll (.table span form own) (fields.map single) =
      some (.table span' form (own ++ fields)) := by
  induction fields generalizing own span with
  | nil => exact ⟨span, by rw [List.append_nil]; rfl⟩
  | cons f fields ih =>
    obtain ⟨span₁, he⟩ := extendTo_table f.2 span form own
    have hnew : lookup f.1.name own = none := by
      apply lookup_eq_none
      rw [List.map_append, List.nodup_append] at hnodup
      exact fun hm => hnodup.2.2 _ hm _ (by simp) rfl
    have hassign : assign (extendTo f.2 (.table span form own)) [f.1] f.2 =
        some (.table span₁ form (own ++ [f])) := by
      simp [he, assign, descend, addField, hform, hnew]
    rw [List.append_cons] at hnodup
    obtain ⟨span', hrest⟩ := ih hnodup span₁
    refine ⟨span', ?_⟩
    rw [List.append_cons, ← hrest]
    show (assign (extendTo f.2 (.table span form own)) [f.1] f.2 >>=
      fun t => assignAll t (fields.map single)) = _
    rw [hassign]
    rfl

theorem ShowsLine.map_name {document : List Char} {lines : List KeyLine}
    {fields : List (Key × Node)} (h : List.Forall₂ (ShowsLine document) lines fields) :
    (fields.map fun f => f.1.name) = lines.map KeyLine.key := by
  induction h with
  | nil => rfl
  | cons hf _ ih => rw [List.map_cons, List.map_cons, hf.name, ih]

theorem IsSingleTable.stops_mark {name : String} {lines : List KeyLine} {t : List Char}
    (h : IsSingleTable name lines t) : Stops (· == '\ufeff') t := by
  cases h with
  | table layout =>
    simp only [List.append_assoc, List.cons_append]
    exact layout.stops_mark (stops_cons (by decide))

theorem read_singleTable {name : String} {lines : List KeyLine} {t : List Char}
    (ht : IsSingleTable name lines t) (hkeys : (lines.map KeyLine.key).Nodup) :
    ∃ key span fields, read? (String.ofList t) =
        some (.table none .header [(key, .table span .header fields)]) ∧ key.name = name ∧
      List.Forall₂ (ShowsLine t) lines fields := by
  have hmark := ht.stops_mark
  cases ht with
  | @table s s₁ k s₂ e u rest _ layout before key after ending body void =>
    obtain ⟨headerSpan, header, hname, hread⟩ := readLines_header layout before key after ending
    obtain ⟨fields, hlines, hshows⟩ := readLines_keyLines body
    have hdocument : readLines (s ++ '[' :: s₁ ++ k ++ s₂ ++ ']' :: e ++ u) =
        some (.header (.table headerSpan [header]) :: assignments (fields.map single)) := by
      rw [hread, hlines, void.readLines_eq]
      simp
    have hnodup : (fields.map fun f => f.1.name).Nodup := by
      rwa [ShowsLine.map_name hshows]
    obtain ⟨span, htable⟩ := @assignAll_single .header (by decide) fields [] hnodup
      (some headerSpan)
    refine ⟨header, span, fields, ?_, hname, hshows⟩
    rw [read?, String.toList_ofList, skipByteOrderMark_of_stops hmark, hdocument]
    have hsections := sections_assignments (fields.map single) []
    rw [List.append_nil] at hsections
    show build (.header (.table headerSpan [header]) :: assignments (fields.map single)) = _
    rw [build_eq, sections, hsections]
    show addTable headerSpan header _ (.table none .header []) >>= some = _
    simp [addTable_eq, ownFields, lookup, withoutName, sections, htable]

end ServerActions.Toml
