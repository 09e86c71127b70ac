import ServerActions.Proofs.Toml.Lines

/-!
How documents are built.  Lines that assign values fill the table they stand below, and a table in
front of other ones changes nothing about them.
-/

namespace ServerActions.Toml

open Text

variable {α : Type}

theorem sections_assignments (pairs : Assignments) (lines : List Line) :
    sections (assignments pairs ++ lines) = (pairs ++ (sections lines).1, (sections lines).2) := by
  induction pairs with
  | nil => rfl
  | cons v pairs ih =>
    show ((v.1, v.2) :: (sections (assignments pairs ++ lines)).1,
      (sections (assignments pairs ++ lines)).2) = _
    rw [ih]
    rfl

theorem EndsTable.sections_eq {rest : List Char} (h : EndsTable rest) {lines : List Line}
    (hread : readLines rest = some lines) : (sections lines).1 = [] := by
  cases h with
  | nothing void =>
    rw [void.readLines_eq] at hread
    obtain rfl := Option.some.inj hread
    rfl
  | @header s r layout =>
    have hskip : skipLayout (s ++ '[' :: r) = '[' :: r :=
      skipLayout_append_of_solid layout (solid_cons (by decide) r)
    rw [readLines, hskip] at hread
    cases hline : readLine ('[' :: r) with
    | none => simp [hline] at hread
    | some line =>
      obtain ⟨line, r'⟩ := line
      obtain ⟨h, rfl⟩ : ∃ h, line = .header h := by
        obtain ⟨⟨h, u⟩, -, hline⟩ := Option.bind_eq_some_iff.mp hline
        obtain ⟨v, -, hline⟩ := Option.bind_eq_some_iff.mp hline
        exact ⟨h, ((Prod.mk.inj (Option.some.inj hline)).1).symm⟩
      simp only [hline] at hread
      split_ifs at hread
      obtain ⟨lines, -, rfl⟩ := Option.map_eq_some_iff.mp hread
      rfl

def Beside (f : Key × Node) (edit : Node → Option Node) : Prop :=
  ∀ span form fields t, edit (.table span form fields) = some t →
    ∃ span' form' fields', t = .table span' form' fields' ∧
      (lookup f.1.name fields' = none → lookup f.1.name fields = none ∧
        edit (.table span form (f :: fields)) = some (.table span' form' (f :: fields')))

section Beside

variable {f : Key × Node} {name : String} {fields : List (Key × Node)}

theorem lookup_cons_other (h : f.1.name ≠ name) :
    lookup name (f :: fields) = lookup name fields := by
  rw [lookup, if_neg h]

theorem update_cons_other (h : f.1.name ≠ name) (v : Node) :
    update name v (f :: fields) = f :: update name v fields := by
  rw [update, if_neg h]

theorem lookup_append_eq_none {k : Key} {v : Node} (h : lookup name (fields ++ [(k, v)]) = none) :
    lookup name fields = none ∧ name ≠ k.name := by
  rw [lookup_append, Option.or_eq_none_iff, lookup] at h
  obtain ⟨hfields, hk⟩ := h
  refine ⟨hfields, ?_⟩
  rintro rfl
  simp at hk

theorem lookup_update_eq_none {other : String} {v : Node}
    (h : lookup name (update other v fields) = none) (hother : lookup other fields ≠ none) :
    lookup name fields = none ∧ name ≠ other := by
  by_cases hname : name = other
  · subst hname
    rw [lookup_update_self hother] at h
    cases h
  · rw [lookup_update_other hname] at h
    exact ⟨h, hname⟩

theorem descend_beside (form : Form) {edit : Node → Option Node} (h : Beside f edit)
    (path : List Key) : Beside f (descend form edit path) := by
  -- the first key has another name than the field in front, so it is looked up behind that field
  cases path with
  | nil => exact h
  | cons k path =>
    intro span own fields t ht
    rw [descend] at ht
    cases hl : lookup k.name fields with
    | none =>
      rw [hl] at ht
      obtain ⟨child, hchild, ht⟩ := Option.bind_eq_some_iff.mp ht
      refine ⟨span, own, _, (Option.some.inj ht).symm, fun hnone => ?_⟩
      obtain ⟨hfields, hname⟩ := lookup_append_eq_none hnone
      refine ⟨hfields, ?_⟩
      rw [descend, lookup_cons_other hname, hl]
      simp [hchild]
    | some v =>
      have hne : lookup k.name fields ≠ none := by simp [hl]
      rw [hl] at ht
      cases v with
      | table childSpan childForm childFields =>
        dsimp only at ht
        split_ifs at ht with hleads
        obtain ⟨child, hchild, ht⟩ := Option.bind_eq_some_iff.mp ht
        refine ⟨span, own, _, (Option.some.inj ht).symm, fun hnone => ?_⟩
        obtain ⟨hfields, hname⟩ := lookup_update_eq_none hnone hne
        refine ⟨hfields, ?_⟩
        rw [descend, lookup_cons_other hname, hl]
        simp [hleads, hchild, update_cons_other hname]
      | tables items =>
        obtain ⟨first, hfirst, ht⟩ := Option.bind_eq_some_iff.mp ht
        obtain ⟨last, hlast, ht⟩ := Option.bind_eq_some_iff.mp ht
        refine ⟨span, own, _, (Option.some.inj ht).symm, fun hnone => ?_⟩
        obtain ⟨hfields, hname⟩ := lookup_update_eq_none hnone hne
        refine ⟨hfields, ?_⟩
        rw [descend, lookup_cons_other hname, hl]
        simp [hfirst, hlast, update_cons_other hname]
      | scalar => cases ht
      | array => cases ht

theorem withoutName_cons_other (h : f.1.name ≠ name) :
    withoutName name (f :: fields) = f :: withoutName name fields :=
  List.filter_cons_of_pos (by simpa using h)

theorem lookup_withoutName_other {other : String} (h : name ≠ other) (fields : List (Key × Node)) :
    lookup name (withoutName other fields) = lookup name fields := by
  induction fields with
  | nil => rfl
  | cons f fields ih =>
    by_cases hf : f.1.name = other
    · rw [withoutName, List.filter_cons_of_neg (by simpa using hf), ← withoutName, ih,
        lookup_cons_other (by rw [hf]; exact h.symm)]
    · rw [withoutName_cons_other hf, lookup, lookup, ih]

def ownFields (k : Key) (fields : List (Key × Node)) : Option (List (Key × Node)) :=
  match lookup k.name fields with
  | none => some []
  | some (.table _ .implied own) => some own
  | some _ => none

theorem addTable_eq (span : Span) (k : Key) (pairs : Assignments) (parentSpan : Option Span)
    (form : Form) (fields : List (Key × Node)) :
    addTable span k pairs (.table parentSpan form fields) = do
      let own ← ownFields k fields
      let t ← assignAll (.table (some span) .header own) pairs
      return .table parentSpan form (withoutName k.name fields ++ [(k, t)]) := by
  unfold addTable ownFields
  dsimp only
  cases lookup k.name fields with
  | none => rfl
  | some v =>
    cases v with
    | table _ form => cases form <;> rfl
    | _ => rfl

theorem addTable_beside (span : Span) (k : Key) (pairs : Assignments) :
    Beside f (addTable span k pairs) := by
  intro parentSpan form fields t ht
  rw [addTable_eq] at ht
  obtain ⟨own, hown, ht⟩ := Option.bind_eq_some_iff.mp ht
  obtain ⟨table, htable, ht⟩ := Option.bind_eq_some_iff.mp ht
  refine ⟨parentSpan, form, _, (Option.some.inj ht).symm, fun hnone => ?_⟩
  obtain ⟨hfields, hname⟩ := lookup_append_eq_none hnone
  rw [lookup_withoutName_other hname] at hfields
  have hown' : ownFields k (f :: fields) = some own := by
    rw [ownFields, lookup_cons_other hname, ← ownFields, hown]
  exact ⟨hfields, by simp [addTable_eq, hown', htable, withoutName_cons_other hname]⟩

theorem addToTables_beside (span : Span) (k : Key) (pairs : Assignments) :
    Beside f (addToTables span k pairs) := by
  intro parentSpan form fields t ht
  unfold addToTables at ht
  obtain ⟨table, htable, ht⟩ := Option.bind_eq_some_iff.mp ht
  split at ht
  next hl =>
    refine ⟨parentSpan, form, _, (Option.some.inj ht).symm, fun hnone => ?_⟩
    obtain ⟨hfields, hname⟩ := lookup_append_eq_none hnone
    refine ⟨hfields, ?_⟩
    simp [addToTables, lookup_cons_other hname, htable, hl]
  next items hl =>
    refine ⟨parentSpan, form, _, (Option.some.inj ht).symm, fun hnone => ?_⟩
    obtain ⟨hfields, hname⟩ := lookup_update_eq_none hnone (by simp [hl])
    refine ⟨hfields, ?_⟩
    simp [addToTables, lookup_cons_other hname, htable, hl, update_cons_other hname]
  next => cases ht

theorem addSection_beside (f : Key × Node) (s : Section) : Beside f (addSection · s) := by
  obtain ⟨header, pairs⟩ := s
  intro span form fields t ht
  cases header with
  | table headerSpan path =>
    obtain ⟨k, hk, ht⟩ := Option.bind_eq_some_iff.mp ht
    obtain ⟨span', form', fields', rfl, hbeside⟩ :=
      descend_beside .implied (addTable_beside headerSpan k pairs) path.dropLast _ _ _ _ ht
    refine ⟨span', form', fields', rfl, fun hnone => ?_⟩
    obtain ⟨hfields, hd⟩ := hbeside hnone
    exact ⟨hfields, by simp [addSection, hk, hd]⟩
  | tables headerSpan path =>
    obtain ⟨k, hk, ht⟩ := Option.bind_eq_some_iff.mp ht
    obtain ⟨span', form', fields', rfl, hbeside⟩ :=
      descend_beside .implied (addToTables_beside headerSpan k pairs) path.dropLast _ _ _ _ ht
    refine ⟨span', form', fields', rfl, fun hnone => ?_⟩
    obtain ⟨hfields, hd⟩ := hbeside hnone
    exact ⟨hfields, by simp [addSection, hk, hd]⟩

theorem foldlM_beside (f : Key × Node) (rest : List Section) :
    Beside f (rest.foldlM addSection) := by
  induction rest with
  | nil =>
    intro span form fields t ht
    exact ⟨span, form, fields, (Option.some.inj ht).symm, fun hnone => ⟨hnone, rfl⟩⟩
  | cons s rest ih =>
    intro span form fields t ht
    obtain ⟨next, hnext, ht⟩ := Option.bind_eq_some_iff.mp ht
    obtain ⟨span', form', fields', rfl, hstep⟩ := addSection_beside f s _ _ _ _ hnext
    obtain ⟨span'', form'', fields'', rfl, hrun⟩ := ih _ _ _ _ ht
    refine ⟨span'', form'', fields'', rfl, fun hnone => ?_⟩
    obtain ⟨hnone', hrest⟩ := hrun hnone
    obtain ⟨hfields, hfirst⟩ := hstep hnone'
    exact ⟨hfields, Option.bind_eq_some_iff.mpr ⟨_, hfirst, hrest⟩⟩

end Beside

theorem skipByteOrderMark_of_stops {s : List Char} (h : Stops (· == '\ufeff') s) :
    skipByteOrderMark s = s := by
  unfold skipByteOrderMark
  split
  next => exact absurd (h '\ufeff' rfl) (by decide)
  next => rfl

theorem IsLayout.stops_mark {s r : List Char} (h : IsLayout s) (hr : Stops (· == '\ufeff') r) :
    Stops (· == '\ufeff') (s ++ r) := by
  cases h with
  | nil => exact hr
  | @space c t space =>
    apply stops_cons
    simp only [isSpace, Bool.or_eq_true, beq_iff_eq] at space
    rcases space with rfl | rfl <;> decide
  | line comment newline =>
    simp only [List.append_assoc]
    cases comment with
    | none => exact newline.stops (by decide) _
    | marked => exact stops_cons (by decide)

theorem IsTable.stops_mark {pair : Grammar α} {name : String} {rest t : List Char} {as : List α}
    (h : IsTable name pair rest as t) : Stops (· == '\ufeff') t := by
  cases h with
  | table layout =>
    simp only [List.append_assoc, List.cons_append]
    exact layout.stops_mark (stops_cons (by decide))

theorem IsVoid.stops_mark {r : List Char} (h : IsVoid r) : Stops (· == '\ufeff') r := by
  cases h with
  | void layout comment =>
    apply layout.stops_mark
    cases comment with
    | none => exact stops_nil
    | marked => exact stops_cons (by decide)

theorem EndsTable.stops_mark {rest : List Char} (h : EndsTable rest) :
    Stops (· == '\ufeff') rest := by
  cases h with
  | nothing void => exact void.stops_mark
  | header layout => exact layout.stops_mark (stops_cons (by decide))

theorem IsBody.stops_mark {item : Grammar α} {rest t : List Char} {as : List (List String × α)}
    (h : IsBody (IsPair item) rest as t) (hrest : Stops (· == '\ufeff') rest) :
    Stops (· == '\ufeff') t := by
  cases h with
  | nil => exact hrest
  | line before first =>
    simp only [List.append_assoc]
    apply before.stops_mark
    apply (first.stops _).of_imp
    intro c hc
    obtain rfl := beq_iff_eq.mp hc
    decide

theorem build_eq (lines : List Line) :
    build lines = (assignAll (.table none .header []) (sections lines).1).bind
      fun root => (sections lines).2.foldlM addSection root :=
  rfl

section Documents

variable {shows : α → Node → Prop} {item : Grammar α} {as : List (List String × α)}
  {t : List Char}

theorem read_body (h : Takes shows (readValue nestingLimit) item) {rest : List Char}
    (ht : IsBody (IsPair item) rest as t) (hrest : IsVoid rest) :
    ∃ vs, read? (String.ofList t) = assignAll (.table none .header []) vs ∧
      List.Forall₂ (ShowsPair shows) as vs := by
  obtain ⟨vs, hvs, hshows⟩ := readLines_body h ht
  refine ⟨vs, ?_, hshows⟩
  rw [read?, String.toList_ofList, skipByteOrderMark_of_stops (ht.stops_mark hrest.stops_mark), hvs,
    hrest.readLines_eq]
  show build (assignments vs ++ []) = _
  rw [build_eq, sections_assignments]
  simp [sections]

theorem read_line (h : Takes shows (readValue nestingLimit) item) {name : String} {a : α}
    {rest : List Char} (ht : IsBody (IsPair item) rest [([name], a)] t) (hrest : IsVoid rest) :
    ∃ k v, read? (String.ofList t) = some (.table none .header [(k, v)]) ∧ k.name = name ∧
      shows a v := by
  obtain ⟨vs, hread, hshows⟩ := read_body h ht hrest
  cases hshows with
  | @cons _ v _ _ hpair hnil =>
    cases hnil
    obtain ⟨path, v⟩ := v
    obtain ⟨k, rfl, hk⟩ := names_eq_single hpair.path
    refine ⟨k, v, ?_, hk, hpair.value⟩
    rw [hread]
    simp [assignAll, extendTo, assign, descend, addField, lookup]

theorem read_void {r : List Char} (h : IsVoid r) :
    read? (String.ofList r) = some (.table none .header []) := by
  rw [read?, String.toList_ofList, skipByteOrderMark_of_stops h.stops_mark, h.readLines_eq]
  rfl

theorem read_table (h : Takes shows (readValue nestingLimit) item) {name : String}
    {rest : List Char} (ht : IsTable name (IsPair item) rest as t)
    (hapart : Apart (as.map Prod.fst)) (hends : EndsTable rest) {span : Option Span} {form : Form}
    {others : List (Key × Node)}
    (hrest : read? (String.ofList rest) = some (.table span form others))
    (hother : lookup name others = none) :
    ∃ key vs keySpan own, read? (String.ofList t) =
        some (.table span form ((key, .table keySpan .header own) :: others)) ∧
      key.name = name ∧ List.Forall₂ (ShowsPair shows) as vs ∧ Filled vs own := by
  obtain ⟨keySpan, key, vs, hname, hlines, hshows⟩ := readLines_table h ht
  obtain ⟨lines, hlines', hbuild⟩ := Option.bind_eq_some_iff.mp hrest
  rw [String.toList_ofList, skipByteOrderMark_of_stops hends.stops_mark] at hlines'
  -- the lines that follow are read and added as they are without the table
  have hsections : sections (.header (.table keySpan [key]) :: assignments vs ++ lines) =
      ([], ⟨.table keySpan [key], vs⟩ :: (sections lines).2) := by
    rw [List.cons_append, sections, sections_assignments, hends.sections_eq hlines',
      List.append_nil]
  have hread : read? (String.ofList t) =
      build (.header (.table keySpan [key]) :: assignments vs ++ lines) := by
    rw [read?, String.toList_ofList, skipByteOrderMark_of_stops ht.stops_mark, hlines, hlines']
    rfl
  obtain ⟨hpaths, hsome⟩ := ShowsPair.forall_paths hshows
  obtain ⟨span', own, hown, hfilled⟩ := assignAll_apart (some keySpan)
    (by decide : Form.header ≠ .dotted) hsome (hpaths ▸ hapart)
  have hfirst : addSection (.table none .header []) ⟨.table keySpan [key], vs⟩ =
      some (.table none .header [(key, .table span' .header own)]) := by
    show addTable keySpan key vs (.table none .header []) = _
    simp [addTable_eq, ownFields, lookup, withoutName, hown]
  rw [build_eq, hends.sections_eq hlines'] at hbuild
  obtain ⟨_, _, _, htable, hbeside⟩ :=
    foldlM_beside (key, .table span' .header own) (sections lines).2 _ _ _ _ hbuild
  obtain ⟨rfl, rfl, rfl⟩ := Node.table.inj htable
  refine ⟨key, vs, span', own, ?_, hname, hshows, hfilled⟩
  rw [hread, build_eq, hsections]
  show (addSection (.table none .header []) ⟨.table keySpan [key], vs⟩).bind
    (fun root => (sections lines).2.foldlM addSection root) = _
  rw [hfirst]
  exact (hbeside (by rwa [hname])).2

end Documents

end ServerActions.Toml
