import ServerActions.Proofs.Settings.Overriding

namespace ServerActions.Settings

open Toml Text

def entries (c : Settings) (fields : List Field) : List (List String × Content) :=
  fields.map fun f => ([f.name], .scalar (c.value f))

inductive Spelling (c : Settings) (fields : List Field) : List Char → Prop
  | header {rest t : List Char}
      (table : IsTable "generate" (IsPair (IsValue 0)) rest (c.entries fields) t)
      (rest : IsVoid rest) : Spelling c fields t
  | dotted {rest t : List Char}
      (lines : IsBody (IsPair (IsValue 0)) rest
        (fields.map fun f => (["generate", f.name], .scalar (c.value f))) t)
      (rest : IsVoid rest) : Spelling c fields t
  | inline {rest t : List Char}
      (line : IsBody (IsPair (IsInlineTable (IsValue 0))) rest [(["generate"], c.entries fields)] t)
      (rest : IsVoid rest) : Spelling c fields t
  | positional {rest t : List Char} (first : fields <+: Field.all)
      (line : IsBody (IsPair (IsArray (IsValue 0))) rest
        [(["generate"], fields.map fun f => .scalar (c.value f))] t)
      (rest : IsVoid rest) : Spelling c fields t

section Entries

variable {c : Settings} {fields : List Field}

theorem assigns_entries : Assigns c fields (c.entries fields) where
  known f hf := List.mem_map.mpr ⟨f, hf, rfl⟩
  others a ha := by
    obtain ⟨f, hf, rfl⟩ := List.mem_map.mp ha
    exact .inl ⟨f, hf, rfl⟩

theorem apart_entries (h : fields.Nodup) : Apart ((c.entries fields).map Prod.fst) := by
  rw [entries, List.map_map]
  refine List.Pairwise.map _ (fun f g hne => ?_) h
  exact diverge_singles fun he => hne (Field.name_injective he)

end Entries

theorem parse_header {c : Settings} {fields : List Field} (hnodup : fields.Nodup)
    {rest t : List Char}
    (ht : IsTable "generate" (IsPair (IsValue 0)) rest (c.entries fields) t) (hrest : IsVoid rest) :
    ∃ s, parse (String.ofList t) = .ok s ∧ DefaultBut c fields s := by
  obtain ⟨k, vs, keySpan, own, hread, hk, hshows, hfilled⟩ :=
    read_table (takes_scalar nestingLimit) ht (apart_entries hnodup) (.nothing hrest)
      (read_void hrest) rfl
  obtain ⟨s, hs, hvalue⟩ := (assigns_entries.holds hshows hfilled).ofFields
  exact ⟨s, parse_of_generate hread hk hs, hvalue⟩

theorem parse_factory {cs : List Char} (h : IsBasicChars cs cs) :
    parse ("[generate]\nfactory = \"" ++ String.ofList cs ++ "\"\n") =
      .ok { factory := String.ofList cs } := by
  obtain ⟨c, hc⟩ : ∃ c : Settings, c = { factory := String.ofList cs } := ⟨_, rfl⟩
  have nothing : IsSpaces [] := by decide
  have space : IsSpaces [' '] := by decide
  have newline (r : List Char) : IsLineEnd ['\n'] r := .newline nothing .none .feed
  have generate : IsKey "generate" "generate".toList :=
    .bare (by decide) (List.all_eq_true.mp (by decide))
  have value : IsValue 0 (.scalar (c.value .factory)) ('"' :: cs ++ ['"']) :=
    ⟨_, by rw [Settings.value, hc], .text (.basic ⟨cs, rfl, h⟩)⟩
  have pair : IsPair (IsValue 0) (["factory"], .scalar (c.value .factory)) _ :=
    .pair (.last (Field.isKey_name .factory)) (by decide) space space value
  have table : IsTable "generate" (IsPair (IsValue 0)) [] (c.entries [.factory]) _ :=
    .table .nil nothing generate nothing (newline _) (.line .nil pair (newline _) .nil)
  obtain ⟨s, hs, hvalue⟩ := parse_header (by decide) table (.void .nil .none)
  have hsame : s = c := by
    apply eq_of_value_eq
    intro f
    rw [hvalue, hc]
    cases f <;> rfl
  have htext : "[generate]\nfactory = \"" ++ String.ofList cs ++ "\"\n" = String.ofList
      ('[' :: ("generate".toList ++ ']' :: '\n' :: ("factory".toList ++
        ' ' :: '=' :: ' ' :: '"' :: (cs ++ ['"', '\n'])))) := by
    apply String.toList_injective
    simp only [String.toList_append, String.toList_ofList, List.append_assoc]
    rfl
  rw [htext, ← hc, ← hsame, ← hs]
  simp only [Field.name, List.append_assoc, List.cons_append, List.nil_append, List.append_nil]

theorem parse_inline {c : Settings} {fields : List Field} {rest t : List Char}
    (ht : IsBody (IsPair (IsInlineTable (IsValue 0))) rest [(["generate"], c.entries fields)] t)
    (hrest : IsVoid rest) :
    ∃ s, parse (String.ofList t) = .ok s ∧ DefaultBut c fields s := by
  obtain ⟨k, v, hread, hk, span, vs, own, rfl, hshows, hfilled⟩ :=
    read_line (takes_inlineTable (takes_scalar (nestingLimit - 1))) ht hrest
  obtain ⟨s, hs, hvalue⟩ := (assigns_entries.holds hshows hfilled).ofFields
  exact ⟨s, parse_of_generate hread hk hs, hvalue⟩

theorem gives_zip {c : Settings} (key : Span) {fields before : List Field} (h : fields <+: before)
    {items : List Node}
    (hitems : List.Forall₂ ShowsContent (fields.map fun f => .scalar (c.value f)) items) :
    Gives c fields (((before.map Field.name).zip items).map fun e => (⟨e.1, key⟩, e.2)) := by
  induction fields generalizing before items with
  | nil =>
    cases hitems
    rw [List.zip_nil_right]
    exact .nil
  | cons f fields ih =>
    obtain ⟨before, rfl⟩ : ∃ tail, before = f :: tail := by
      obtain ⟨tail, rfl⟩ := h
      exact ⟨_, rfl⟩
    cases hitems with
    | cons hitem hitems =>
      exact .cons ⟨rfl, hitem⟩ (ih (List.cons_prefix_cons.mp h).2 hitems)

theorem parse_positional {c : Settings} {fields : List Field} (hfirst : fields <+: Field.all)
    {rest t : List Char}
    (ht : IsBody (IsPair (IsArray (IsValue 0))) rest
      [(["generate"], fields.map fun f => .scalar (c.value f))] t) (hrest : IsVoid rest) :
    ∃ s, parse (String.ofList t) = .ok s ∧ DefaultBut c fields s := by
  obtain ⟨k, v, hread, hk, span, items, rfl, hitems⟩ :=
    read_line (takes_array (takes_scalar (nestingLimit - 1))) ht hrest
  obtain ⟨s, hs, hvalue⟩ := (gives_zip k.span hfirst hitems).holds.ofFields
  refine ⟨s, parse_of_generate hread hk ?_, hvalue⟩
  show ofItems k.span items = _
  rw [ofItems_eq, ← Field.map_name_all]
  exact hs

theorem assign_first (g k : Key) (v : Node) :
    assign (.table none .header []) [g, k] v =
      some (.table none .header [(g, .table none .dotted [(k, v)])]) := by
  simp [assign, descend, addField, lookup]

theorem assign_next {g key k : Key} {own : List (Key × Node)} (hg : g.name = key.name)
    (hk : lookup k.name own = none) (v : Node) :
    assign (.table none .header [(key, .table none .dotted own)]) [g, k] v =
      some (.table none .header [(key, .table none .dotted (own ++ [(k, v)]))]) := by
  simp [assign, descend, addField, lookup, update, leadsThrough, hg, hk]

theorem assignAll_dotted {c : Settings} {fields done : List Field} {vs : Assignments} {key : Key}
    {own : List (Key × Node)} (hkey : key.name = "generate")
    (hshows : List.Forall₂ (ShowsPair ShowsContent)
      (fields.map fun f => (["generate", f.name], .scalar (c.value f))) vs)
    (hnodup : (done ++ fields).Nodup) (hown : Gives c done own) :
    ∃ own', assignAll (.table none .header [(key, .table none .dotted own)]) vs =
      some (.table none .header [(key, .table none .dotted own')]) ∧
      Gives c (done ++ fields) own' := by
  induction fields generalizing done own vs with
  | nil =>
    cases hshows
    exact ⟨own, rfl, by rwa [List.append_nil]⟩
  | cons f fields ih =>
    cases hshows with
    | @cons _ v _ vs hpair hshows =>
      obtain ⟨path, v⟩ := v
      obtain ⟨g, k, rfl, hg, hk⟩ := names_eq_pair hpair.path
      have hnew : f ∉ done := by
        intro hf
        exact (List.nodup_append.mp hnodup).2.2 f hf f List.mem_cons_self rfl
      have hfree : lookup k.name own = none := by rw [hk, hown.lookup_eq_none hnew]
      have hnext : Gives c (done ++ [f]) (own ++ [(k, v)]) :=
        List.rel_append hown (.cons ⟨hk, hpair.value⟩ .nil)
      have hassoc : done ++ f :: fields = done ++ [f] ++ fields := by simp
      rw [hassoc] at hnodup ⊢
      obtain ⟨own', hrun, hgives⟩ := ih hshows hnodup hnext
      refine ⟨own', ?_, hgives⟩
      show (assign (.table none .header [(key, .table none .dotted own)]) [g, k] v >>=
        fun t => assignAll t vs) = _
      rw [assign_next (hg.trans hkey.symm) hfree]
      exact hrun

theorem parse_dotted {c : Settings} {fields : List Field} (hnodup : fields.Nodup)
    {rest t : List Char}
    (ht : IsBody (IsPair (IsValue 0)) rest
      (fields.map fun f => (["generate", f.name], .scalar (c.value f))) t) (hrest : IsVoid rest) :
    ∃ s, parse (String.ofList t) = .ok s ∧ DefaultBut c fields s := by
  obtain ⟨vs, hread, hshows⟩ := read_body (takes_scalar nestingLimit) ht hrest
  cases fields with
  | nil =>
    cases hshows
    exact ⟨{}, by rw [parse, hread]; rfl, fun f => rfl⟩
  | cons f fields =>
    cases hshows with
    | @cons _ v _ vs hpair hshows =>
      obtain ⟨path, v⟩ := v
      obtain ⟨key, k, rfl, hkey, hk⟩ := names_eq_pair hpair.path
      have hfirst : Gives c [f] [(k, v)] := .cons ⟨hk, hpair.value⟩ .nil
      obtain ⟨own, hrun, hgives⟩ := assignAll_dotted hkey hshows hnodup hfirst
      obtain ⟨s, hs, hvalue⟩ := hgives.holds.ofFields
      have htree : read? (String.ofList t) =
          some (.table none .header [(key, .table none .dotted own)]) := by
        rw [hread]
        show (assign (.table none .header []) [key, k] v >>= fun t => assignAll t vs) = _
        rw [assign_first]
        exact hrun
      exact ⟨s, parse_of_generate htree hkey hs, hvalue⟩

theorem Spelling.parse_eq {c : Settings} {fields : List Field} (hnodup : fields.Nodup)
    {t : List Char} (h : Spelling c fields t) :
    ∃ s, parse (String.ofList t) = .ok s ∧ DefaultBut c fields s := by
  cases h with
  | header table rest => exact parse_header hnodup table rest
  | dotted lines rest => exact parse_dotted hnodup lines rest
  | inline line rest => exact parse_inline line rest
  | positional first line rest => exact parse_positional first line rest

/-- All spellings of the same settings, in whatever order, give the same: the settings that are
spelled out, and the defaults for the others. -/
theorem parse_spelling (c : Settings) {fields : List Field} (hnodup : fields.Nodup) :
    ∃ s : Settings,
      (∀ f, s.value f = if f ∈ fields then c.value f else ({} : Settings).value f) ∧
      ∀ order t, order.Perm fields → Spelling c order t → parse (String.ofList t) = .ok s := by
  obtain ⟨s, hs⟩ := exists_defaultBut c fields
  refine ⟨s, hs, fun order t hperm ht => ?_⟩
  obtain ⟨s', hparse, hvalue⟩ := ht.parse_eq (hperm.nodup_iff.mpr hnodup)
  have hsame : s' = s := by
    apply eq_of_value_eq
    intro f
    rw [hvalue, hs]
    simp only [hperm.mem_iff]
  rw [hparse, hsame]

theorem parse_spelling_escaped :
    ∃ s : Settings,
      (∀ f, s.value f = if f ∈ [.fileStem, .sourceDir] then
        ({ sourceDir := "a\"\n", fileStem := "é\\" } : Settings).value f
      else ({} : Settings).value f) ∧
      parse "[generate]\nfile_stem=\"é\\\\\"\nsource_dir=\"a\\\"\\u000a\"\n" = .ok s ∧
      parse "generate.source_dir=\"a\\\"\\u000a\"\ngenerate.file_stem=\"é\\\\\"\n" = .ok s ∧
      parse "generate=\x7bfile_stem=\"é\\\\\",source_dir=\"a\\\"\\u000a\"\x7d\n" = .ok s ∧
      parse "generate=[\"a\\\"\\u000a\",\"é\\\\\"]\n" = .ok s := by
  let c : Settings := { sourceDir := "a\"\n", fileStem := "é\\" }
  have nothing : IsSpaces [] := by decide
  have void : IsVoid [] := .void .nil .none
  have newline (r : List Char) : IsLineEnd ['\n'] r := .newline nothing .none .feed
  have generate : IsKey "generate" "generate".toList :=
    .bare (by decide) (List.all_eq_true.mp (by decide))
  have written (f : Field) (v : String) (h : c.value f = .text v) :
      IsValue 0 (.scalar (c.value f)) (between v.toList) := by
    have htext := IsScalar.text (.basic (isBasic_between v.toList))
    rw [String.ofList_toList] at htext
    exact ⟨_, by rw [h], htext⟩
  have stem := written .fileStem "é\\" rfl
  have source := written .sourceDir "a\"\n" rfl
  have stemPair : IsPair (IsValue 0) (["file_stem"], .scalar (c.value .fileStem)) _ :=
    .pair (.last (Field.isKey_name .fileStem)) (by decide) nothing nothing stem
  have sourcePair : IsPair (IsValue 0) (["source_dir"], .scalar (c.value .sourceDir)) _ :=
    .pair (.last (Field.isKey_name .sourceDir)) (by decide) nothing nothing source
  have stemPath : IsPath ["generate", "file_stem"] _ :=
    .next generate nothing nothing (.last (Field.isKey_name .fileStem))
  have sourcePath : IsPath ["generate", "source_dir"] _ :=
    .next generate nothing nothing (.last (Field.isKey_name .sourceDir))
  have header : Spelling c [.fileStem, .sourceDir] _ :=
    .header (.table .nil nothing generate nothing (newline _)
      (.line .nil stemPair (newline _) (.line .nil sourcePair (newline _) .nil))) void
  have dotted : Spelling c [.sourceDir, .fileStem] _ :=
    .dotted (.line .nil (.pair sourcePath (by decide) nothing nothing source) (newline _)
      (.line .nil (.pair stemPath (by decide) nothing nothing stem) (newline _) .nil)) void
  have inline : Spelling c [.fileStem, .sourceDir] _ :=
    .inline (.line .nil (.pair (.last generate) (by decide) nothing nothing ⟨_, rfl, .pairs
      (.next nothing stemPair nothing (.last nothing sourcePair nothing)), by decide⟩)
      (newline _) .nil) void
  have positional : Spelling c [.sourceDir, .fileStem] _ :=
    .positional (by decide) (.line .nil (.pair (.last generate) (by decide) nothing nothing
      ⟨_, rfl, .next .nil source .nil (.last .nil stem .nil)⟩) (newline _) .nil) void
  obtain ⟨s, hs, hparse⟩ := parse_spelling c (by decide : [Field.fileStem, .sourceDir].Nodup)
  refine ⟨s, hs, ?_, ?_, ?_, ?_⟩
  · exact hparse _ _ (.refl _) header
  · exact hparse _ _ (.swap _ _ _) dotted
  · exact hparse _ _ (.refl _) inline
  · exact hparse _ _ (.swap _ _ _) positional

end ServerActions.Settings
