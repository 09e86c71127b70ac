import ServerActions.Resolution

/-!
Which import each entry point is taken from.  The contributions of the imports are disjoint, they
hold the entry points that some import lists, and each is the contribution of the first such import.
-/

namespace ServerActions.Resolution

theorem mem_claim {wanted : String → Bool} {claimed names : List String} {n : String} :
    n ∈ claim wanted claimed names ↔ n ∈ names ∧ wanted n = true ∧ n ∉ claimed := by
  induction names generalizing claimed with
  | nil => simp [claim]
  | cons m names ih =>
    rw [claim]
    split
    next h =>
      simp only [Bool.and_eq_true, Bool.not_eq_true', List.contains_eq_mem,
        decide_eq_false_iff_not] at h
      rw [List.mem_cons, ih, List.mem_cons, List.mem_cons]
      by_cases hn : n = m
      · subst hn
        simp [h]
      · simp [hn]
    next h =>
      simp only [Bool.and_eq_true, Bool.not_eq_true', List.contains_eq_mem,
        decide_eq_false_iff_not, not_and, Classical.not_not] at h
      rw [ih, List.mem_cons]
      by_cases hn : n = m
      · subst hn
        constructor
        · rintro ⟨-, hw, hc⟩
          exact absurd (h hw) hc
        · rintro ⟨-, hw, hc⟩
          exact absurd (h hw) hc
      · simp [hn]

theorem nodup_claim (wanted : String → Bool) (claimed names : List String) :
    (claim wanted claimed names).Nodup := by
  induction names generalizing claimed with
  | nil => exact List.nodup_nil
  | cons m names ih =>
    rw [claim]
    split
    · rw [List.nodup_cons]
      refine ⟨?_, ih _⟩
      intro hm
      exact (mem_claim.mp hm).2.2 List.mem_cons_self
    · exact ih _

theorem mem_flatMap_contributions {e : EntryPoints} {claimed : List String}
    {imports : List ImportBinding} {n : String} :
    n ∈ (contributions e claimed imports).flatMap ImportBinding.names ↔
      n ∉ claimed ∧ n ∈ e.names ∧ ∃ i ∈ imports, n ∈ i.names := by
  induction imports generalizing claimed with
  | nil => simp [contributions]
  | cons i imports ih =>
    rw [contributions, List.flatMap_cons, List.mem_append, ih, List.mem_append, mem_claim,
      EntryPoints.contains_iff, not_or]
    simp only [List.mem_cons, exists_eq_or_imp]
    by_cases he : n ∈ e.names <;> by_cases hi : n ∈ i.names <;> by_cases hc : n ∈ claimed <;>
      simp [he, hi, hc]

theorem nodup_flatMap_contributions (e : EntryPoints) (claimed : List String)
    (imports : List ImportBinding) :
    ((contributions e claimed imports).flatMap ImportBinding.names).Nodup := by
  induction imports generalizing claimed with
  | nil => exact List.nodup_nil
  | cons i imports ih =>
    rw [contributions, List.flatMap_cons, List.nodup_append]
    refine ⟨nodup_claim _ _ _, ih _, ?_⟩
    rintro n hn m hm rfl
    have hc := (mem_flatMap_contributions.mp hm).1
    exact hc (List.mem_append_right claimed hn)

theorem mem_contributions {e : EntryPoints} {claimed : List String} {imports : List ImportBinding}
    {part : ImportBinding} (h : part ∈ contributions e claimed imports) :
    ∃ i ∈ imports, part.path = i.path ∧ ∀ n ∈ part.names, n ∈ i.names := by
  induction imports generalizing claimed with
  | nil => cases h
  | cons i imports ih =>
    rw [contributions] at h
    rcases List.mem_cons.mp h with rfl | h
    · exact ⟨i, List.mem_cons_self, rfl, fun n hn => (mem_claim.mp hn).1⟩
    · obtain ⟨j, hj, hp, hn⟩ := ih h
      exact ⟨j, List.mem_cons_of_mem i hj, hp, hn⟩

theorem find_of_mem_contributions {e : EntryPoints} {claimed : List String}
    {imports : List ImportBinding} {part : ImportBinding}
    (h : part ∈ contributions e claimed imports) {n : String} (hn : n ∈ part.names) :
    ∃ i, imports.find? (fun i => i.names.contains n) = some i ∧ part.path = i.path := by
  induction imports generalizing claimed with
  | nil => cases h
  | cons i imports ih =>
    rw [contributions] at h
    rcases List.mem_cons.mp h with rfl | h
    · have hi := (mem_claim.mp hn).1
      exact ⟨i, by simp [hi], rfl⟩
    · -- the import lists no name of a later contribution, else it had claimed the name
      have hm := mem_flatMap_contributions.mp (List.mem_flatMap.mpr ⟨part, h, hn⟩)
      have hi : n ∉ i.names := by
        intro hi
        apply hm.1
        rw [List.mem_append, mem_claim]
        by_cases hc : n ∈ claimed
        · exact .inl hc
        · exact .inr ⟨hi, EntryPoints.contains_iff.mpr hm.2.1, hc⟩
      obtain ⟨j, hj, hp⟩ := ih h
      exact ⟨j, by rw [List.find?_cons_of_neg (by simpa using hi), hj], hp⟩

theorem flatMap_names_filter (parts : List ImportBinding) :
    (parts.filter fun i => !i.names.isEmpty).flatMap ImportBinding.names =
      parts.flatMap ImportBinding.names := by
  induction parts with
  | nil => rfl
  | cons i parts ih =>
    rw [List.filter_cons]
    split
    next => rw [List.flatMap_cons, List.flatMap_cons, ih]
    next h =>
      have hi : i.names = [] := by simpa using h
      rw [List.flatMap_cons, hi, List.nil_append, ih]

theorem flatMap_names_resolve (imports : List ImportBinding) (e : EntryPoints) :
    (resolve imports e).imports.flatMap ImportBinding.names =
      (contributions e [] imports).flatMap ImportBinding.names :=
  flatMap_names_filter _

theorem mem_imports_resolve {imports : List ImportBinding} {e : EntryPoints} {i : ImportBinding} :
    i ∈ (resolve imports e).imports ↔ i ∈ contributions e [] imports ∧ i.names ≠ [] := by
  simp [resolve]

theorem mem_unbacked_resolve {imports : List ImportBinding} {e : EntryPoints} {n : String} :
    n ∈ (resolve imports e).unbacked ↔ n ∈ e.names ∧ ∀ i ∈ imports, n ∉ i.names := by
  simp only [resolve, mem_claim, mem_flatMap_contributions]
  constructor
  · rintro ⟨he, -, h⟩
    exact ⟨he, fun i hi hn => h ⟨List.not_mem_nil, he, i, hi, hn⟩⟩
  · rintro ⟨he, h⟩
    exact ⟨he, trivial, fun ⟨_, _, i, hi, hn⟩ => h i hi hn⟩

theorem isFullyBacked_resolve {imports : List ImportBinding} {e : EntryPoints} :
    (resolve imports e).isFullyBacked = true ↔ ∀ n ∈ e.names, ∃ i ∈ imports, n ∈ i.names := by
  rw [isFullyBacked, List.isEmpty_iff, List.eq_nil_iff_forall_not_mem]
  constructor
  · intro h n hn
    by_cases hi : ∃ i ∈ imports, n ∈ i.names
    · exact hi
    · exact absurd (mem_unbacked_resolve.mpr ⟨hn, fun i hm hc => hi ⟨i, hm, hc⟩⟩) (h n)
  · intro h n hn
    obtain ⟨he, hi⟩ := mem_unbacked_resolve.mp hn
    obtain ⟨i, hm, hc⟩ := h n he
    exact hi i hm hc

end ServerActions.Resolution
