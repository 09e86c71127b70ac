import ServerActions.Proofs.Declaration.Grammar

namespace ServerActions.Declaration

open Text

theorem importsIn_eq_map (content : String) :
    importsIn content = (importPattern.occurrences content.toList).map Occurrence.value := rfl

theorem callsIn_eq_map (factory content : String) :
    callsIn factory content =
      ((callPattern factory).occurrences content.toList).map Occurrence.value := rfl

/-- The bindings of a file are those of a scan for import statements, of which at most one starts
at each place. -/
theorem importsIn_scan (content : String) :
    (∀ n (i j : ImportStatement), i.text <+: content.toList.drop n →
      j.text <+: content.toList.drop n → i = j) ∧
    ∃ found, importsIn content = found.map Occurrence.value ∧
      importGrammar.IsScan content.toList found := by
  constructor
  · rintro n i j ⟨r, hi⟩ ⟨r', hj⟩
    exact ImportStatement.text_inj (hi.trans hj.symm)
  · exact ⟨_, importsIn_eq_map content, importPattern_recognizes.isScan content.toList⟩

theorem read_eq_none_iff {factory content : String} :
    read? factory content = none ↔ callsIn factory content = [] := by
  rw [read?]
  split
  next h => simp [h]
  next h => simp [h]

theorem read_eq_some_iff {factory content : String} {d : Declaration} :
    read? factory content = some d ↔
      ∃ calls, callsIn factory content = d.entryPoints :: calls ∧ d.extraCalls = calls.length ∧
        d.imports = importsIn content := by
  rw [read?]
  split
  next h => simp [h]
  next call calls h =>
    rw [h]
    constructor
    · intro hd
      obtain rfl := Option.some.inj hd
      exact ⟨calls, rfl, rfl, rfl⟩
    · rintro ⟨calls', hc, hn, hi⟩
      obtain ⟨he, rfl⟩ := List.cons.inj hc
      rw [he, ← hn, ← hi]

theorem exists_callOccurs_iff {factory : String} {s : List Char} :
    (∃ o, (callGrammar factory).Occurs s o) ↔ ∃ c : FactoryCall, c.text factory <:+: s := by
  rw [Grammar.exists_occurs_iff]
  constructor
  · rintro ⟨-, -, ⟨c, rfl, -⟩, hs⟩
    exact ⟨c, hs⟩
  · rintro ⟨c, hs⟩
    exact ⟨c.entryPoints, c.text factory, ⟨c, rfl, rfl⟩, hs⟩

/-- The factory calls of a file are those of a scan; a file is a declaration if it has one, and the
first of them gives its entry points. -/
theorem callsIn_scan (factory content : String) :
    ∃ found, callsIn factory content = found.map Occurrence.value ∧
      (callGrammar factory).IsScan content.toList found ∧
      (read? factory content = none ↔
        ∀ c : FactoryCall, ¬ c.text factory <:+: content.toList) ∧
      ∀ d, read? factory content = some d → ∃ first others, found = first :: others ∧
        (∀ o, (callGrammar factory).Occurs content.toList o →
          o = first ∨ first.start < o.start) ∧
        d.entryPoints = first.value ∧ d.extraCalls = others.length ∧
        d.imports = importsIn content := by
  have hscan := (callPattern_recognizes factory).isScan content.toList
  refine ⟨_, callsIn_eq_map factory content, hscan, ?_, ?_⟩
  · rw [read_eq_none_iff, callsIn_eq_map, List.map_eq_nil_iff, hscan.eq_nil_iff,
      ← not_exists, exists_callOccurs_iff, not_exists]
  · intro d hd
    obtain ⟨calls, hc, hn, hi⟩ := read_eq_some_iff.mp hd
    rw [callsIn_eq_map] at hc
    obtain ⟨first, others, he, hv, hr⟩ := List.map_eq_cons_iff.mp hc
    rw [he] at hscan
    refine ⟨first, others, he, fun o ho => hscan.head_least ho, hv.symm, ?_, hi⟩
    rw [hn, ← hr, List.length_map]

end ServerActions.Declaration
