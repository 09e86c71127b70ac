import ServerActions.Proofs.Resolution.Contributions

namespace ServerActions.Resolution

/-- Imports of entry points only, each of them once, and none without a name. -/
structure Narrowed (e : EntryPoints) (imports : List ImportBinding) : Prop where
  nonempty : ∀ i ∈ imports, i.names ≠ []
  wanted : ∀ i ∈ imports, ∀ n ∈ i.names, n ∈ e.names
  nodup : (imports.flatMap ImportBinding.names).Nodup

theorem narrowed_resolve (imports : List ImportBinding) (e : EntryPoints) :
    Narrowed e (resolve imports e).imports := by
  refine ⟨fun i hi => (mem_imports_resolve.mp hi).2, ?_, ?_⟩
  · intro i hi n hn
    have hm := List.mem_flatMap.mpr ⟨i, (mem_imports_resolve.mp hi).1, hn⟩
    exact (mem_flatMap_contributions.mp hm).2.1
  · rw [flatMap_names_resolve]
    exact nodup_flatMap_contributions e [] imports

theorem claim_eq_self {wanted : String → Bool} {claimed names : List String}
    (hw : ∀ n ∈ names, wanted n = true) (hc : ∀ n ∈ names, n ∉ claimed) (hn : names.Nodup) :
    claim wanted claimed names = names := by
  induction names generalizing claimed with
  | nil => rfl
  | cons n names ih =>
    rw [List.forall_mem_cons] at hw hc
    obtain ⟨hne, hn⟩ := List.nodup_cons.mp hn
    have hc' : ∀ m ∈ names, m ∉ n :: claimed := by
      intro m hm
      rw [List.mem_cons, not_or]
      exact ⟨fun h => hne (h ▸ hm), hc.2 m hm⟩
    rw [claim, if_pos (by simp [hw.1, hc.1]), ih hw.2 hc' hn]

theorem contributions_eq_self {e : EntryPoints} {claimed : List String}
    {imports : List ImportBinding} (hw : ∀ i ∈ imports, ∀ n ∈ i.names, n ∈ e.names)
    (hc : ∀ i ∈ imports, ∀ n ∈ i.names, n ∉ claimed)
    (hn : (imports.flatMap ImportBinding.names).Nodup) :
    contributions e claimed imports = imports := by
  induction imports generalizing claimed with
  | nil => rfl
  | cons i imports ih =>
    rw [List.forall_mem_cons] at hw hc
    rw [List.flatMap_cons, List.nodup_append] at hn
    obtain ⟨hi, hn, hdisjoint⟩ := hn
    have hown : claim e.contains claimed i.names = i.names :=
      claim_eq_self (fun n h => EntryPoints.contains_iff.mpr (hw.1 n h)) hc.1 hi
    -- the names of this import are claimed now, and no later one has them
    have hlater : ∀ j ∈ imports, ∀ n ∈ j.names, n ∉ claimed ++ i.names := by
      intro j hj n hm
      rw [List.mem_append, not_or]
      refine ⟨hc.2 j hj n hm, fun h => ?_⟩
      exact hdisjoint n h n (List.mem_flatMap.mpr ⟨j, hj, hm⟩) rfl
    rw [contributions, hown, ih hw.2 hlater hn]

theorem Narrowed.resolve_eq {e : EntryPoints} {imports : List ImportBinding}
    (h : Narrowed e imports) :
    (resolve imports e).imports = imports ∧ (resolve imports e).dropped = [] := by
  have hparts : contributions e [] imports = imports :=
    contributions_eq_self h.wanted (fun _ _ _ _ => List.not_mem_nil) h.nodup
  constructor
  · simp only [resolve, hparts, List.filter_eq_self]
    intro i hi
    simpa using h.nonempty i hi
  · simp only [resolve, hparts, List.map_eq_nil_iff, List.filter_eq_nil_iff]
    intro i hi
    simpa using h.nonempty i hi

theorem unbacked_resolve_again (imports : List ImportBinding) (e : EntryPoints) :
    (resolve (resolve imports e).imports e).unbacked = (resolve imports e).unbacked := by
  rw [unbacked_eq_firstPlaces, unbacked_eq_firstPlaces]
  apply firstPlaces_congr
  intro n hn
  have htaken : (∃ i ∈ (resolve imports e).imports, n ∈ i.names) ↔ ∃ i ∈ imports, n ∈ i.names := by
    rw [← List.mem_flatMap, flatMap_names_resolve, mem_flatMap_contributions]
    simp [hn]
  rw [Bool.eq_iff_iff, List.all_eq_true, List.all_eq_true]
  simp only [Bool.not_eq_true', List.contains_eq_mem, decide_eq_false_iff_not]
  constructor
  · intro h i hi hm
    obtain ⟨j, hj, hm'⟩ := htaken.mpr ⟨i, hi, hm⟩
    exact h j hj hm'
  · intro h i hi hm
    obtain ⟨j, hj, hm'⟩ := htaken.mp ⟨i, hi, hm⟩
    exact h j hj hm'

theorem imports_resolve_eq_self_iff {imports : List ImportBinding} {e : EntryPoints} :
    (resolve imports e).imports = imports ↔ Narrowed e imports := by
  constructor
  · intro h
    rw [← h]
    exact narrowed_resolve imports e
  · exact fun h => h.resolve_eq.1

/-- The imports that are kept are kept again, none is dropped, and the same names are unbacked; just
the narrowed imports are kept as they are. -/
theorem resolve_again (imports : List ImportBinding) (e : EntryPoints) :
    let r := resolve imports e
    resolve r.imports e = ⟨r.imports, [], r.unbacked⟩ ∧
    ∀ kept, (resolve kept e).imports = kept ↔ Narrowed e kept := by
  intro r
  refine ⟨?_, fun kept => imports_resolve_eq_self_iff⟩
  obtain ⟨himports, hdropped⟩ := (narrowed_resolve imports e).resolve_eq
  calc resolve r.imports e
      = ⟨(resolve r.imports e).imports, (resolve r.imports e).dropped,
          (resolve r.imports e).unbacked⟩ := rfl
    _ = ⟨r.imports, [], r.unbacked⟩ := by
      rw [himports, hdropped, unbacked_resolve_again]

end ServerActions.Resolution
