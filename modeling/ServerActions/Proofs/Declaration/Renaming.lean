import ServerActions.Proofs.Declaration.Declared
import ServerActions.Proofs.Declaration.Names

namespace ServerActions

namespace Declaration

open Text

theorem lists_splitNames {s : List Char} (h : '}' ∉ s) : Lists (splitNames s) s := by
  induction s using cut_induction (c := ',') with
  | piece s hc =>
    rcases splitNames_cases hc with ⟨hs, he⟩ | ⟨n, a, b, hs, ha, hb, -, he⟩
    · rw [he]
      exact .blank hs
    · have hn : IsName n := isName_of_mem_splitNames h (he ▸ List.mem_singleton_self n)
      rw [he, hs]
      exact .name hn ha hb
  | cut s t ihs iht =>
    simp only [List.mem_append, List.mem_cons, not_or] at h
    rw [splitNames_append]
    exact (ihs h.1).comma (iht h.2.2)

theorem lists_iff {names : List String} {s : List Char} (h : '}' ∉ s) :
    Lists names s ↔ splitNames s = names := by
  constructor
  · exact Lists.splitNames
  · rintro rfl
    exact lists_splitNames h

def isIdentifierChar (c : Char) : Bool :=
  c.isAlphanum || c == '_' || c == '$' || (128 ≤ c.toNat && !isBlank c)

structure IsIdentifier (s : List Char) : Prop where
  ne_nil : s ≠ []
  first : Stops Char.isDigit s
  chars : ∀ c ∈ s, isIdentifierChar c = true

inductive IsRenaming : String → Prop
  | intro {x y : List Char} (g g' : Gap) : IsIdentifier x → IsIdentifier y →
    IsRenaming (String.ofList (x ++ g.val ++ "as".toList ++ g'.val ++ y))

theorem exists_statement {s : List Char} {o : Occurrence ImportBinding}
    (h : importGrammar.Occurs s o) :
    ∃ i : ImportStatement, i.text <+: s.drop o.start ∧ i.binding = o.value := by
  obtain ⟨before, t, after, rfl, hstart, -, i, rfl, hi⟩ := h
  refine ⟨i, ⟨after, ?_⟩, hi⟩
  rw [hstart, List.append_assoc, List.drop_left]

/-- A binding of a file has a renaming among its names just if one of the import statements that the
file is scanned into lists it between its braces. -/
theorem exists_renaming_iff (content : String) :
    (∃ b ∈ importsIn content, ∃ n ∈ b.names, IsRenaming n) ↔
      ∃ found, importGrammar.IsScan content.toList found ∧ ∃ o ∈ found, ∃ i : ImportStatement,
        i.text <+: content.toList.drop o.start ∧
          ∃ names, Lists names i.body.val ∧ ∃ n ∈ names, IsRenaming n := by
  have hscan := importPattern_recognizes.isScan content.toList
  rw [importsIn_eq_map]
  constructor
  · rintro ⟨b, hb, n, hn, hr⟩
    obtain ⟨o, ho, rfl⟩ := List.mem_map.mp hb
    obtain ⟨i, htext, hi⟩ := exists_statement (hscan.sound o ho)
    rw [← hi] at hn
    exact ⟨_, hscan, o, ho, i, htext, _, (lists_iff i.body.property.2).mpr rfl, n, hn, hr⟩
  · rintro ⟨found, hfound, o, ho, i, ⟨r, hr⟩, names, hnames, n, hn, hrenaming⟩
    rw [hfound.unique hscan] at ho
    obtain ⟨j, ⟨r', hr'⟩, hj⟩ := exists_statement (hscan.sound o ho)
    obtain rfl := ImportStatement.text_inj (hr.trans hr'.symm)
    refine ⟨o.value, List.mem_map_of_mem ho, n, ?_, hrenaming⟩
    rw [← hj, ImportStatement.binding, hnames.splitNames]
    exact hn

theorem importsIn_renamed : ¬ ∀ b ∈ importsIn "import \x7b a as b \x7d from \"./x\"",
    ∀ n ∈ b.names, ¬ IsRenaming n := by
  have hread : importsIn "import \x7b a as b \x7d from \"./x\"" = [⟨["a as b"], "./x"⟩] := by
    decide +kernel
  have hidentifier (c : Char) (hd : c.isDigit = false) (hc : isIdentifierChar c = true) :
      IsIdentifier [c] := ⟨by simp, stops_cons hd, by simpa using hc⟩
  let space : Gap := ⟨[' '], List.cons_ne_nil _ _, isBlank_of_mem_space⟩
  rw [hread]
  intro h
  apply h _ (List.mem_singleton_self _) "a as b" (List.mem_singleton_self _)
  exact .intro space space (hidentifier 'a' rfl rfl) (hidentifier 'b' rfl rfl)

end Declaration

end ServerActions
