import Mathlib.Tactic.SplitIfs
import Mathlib.Tactic.Tauto
import ServerActions.Proofs.Resolution.Claiming

namespace ServerActions.Resolution

def firstPlaces (p : String → Bool) (names : List String) : List String :=
  (names.zipIdx.filter fun place => p place.1 && !(names.take place.2).contains place.1).map
    Prod.fst

theorem firstPlaces_congr {p q : String → Bool} {names : List String}
    (h : ∀ n ∈ names, p n = q n) : firstPlaces p names = firstPlaces q names := by
  rw [firstPlaces, firstPlaces]
  congr 1
  apply List.filter_congr
  intro place hplace
  rw [h place.1 (List.fst_mem_of_mem_zipIdx hplace)]

theorem claim_append {p : String → Bool} {claimed before taken : List String}
    (h : ∀ n, p n = true → (n ∈ taken ↔ n ∈ claimed ∨ n ∈ before)) (names : List String) :
    claim p taken names = ((names.zipIdx before.length).filter fun place =>
      (p place.1 && !claimed.contains place.1) &&
        !((before ++ names).take place.2).contains place.1).map Prod.fst := by
  induction names generalizing before taken with
  | nil => rfl
  | cons m names ih =>
    have hfront : (before ++ m :: names).take before.length = before := List.take_left
    have hrest : before ++ m :: names = (before ++ [m]) ++ names := by simp
    have hlength : before.length + 1 = (before ++ [m]).length := by simp
    have htaken : (p m && !taken.contains m) =
        ((p m && !claimed.contains m) && !before.contains m) := by
      rw [Bool.eq_iff_iff]
      by_cases hm : p m = true
      · simp [hm, h m hm]
      · simp [hm]
    rw [claim, List.zipIdx_cons, List.filter_cons]
    simp only [hfront, ← htaken]
    rw [hrest, hlength]
    -- from here on the name is one before the others, whether it has been taken or not
    split_ifs with hm
    · have hmore : ∀ n, p n = true → (n ∈ m :: taken ↔ n ∈ claimed ∨ n ∈ before ++ [m]) := by
        intro n hn
        rw [List.mem_cons, h n hn, List.mem_append, List.mem_singleton]
        tauto
      rw [List.map_cons, ih hmore]
    · refine ih fun n hn => ?_
      rw [h n hn, List.mem_append, List.mem_singleton]
      constructor
      · tauto
      · rintro (hc | hb | rfl)
        · exact .inl hc
        · exact .inr hb
        · exact (h n hn).mp (by simpa [hn] using hm)

theorem claim_eq_firstPlaces (p : String → Bool) (claimed names : List String) :
    claim p claimed names = firstPlaces (fun n => p n && !claimed.contains n) names :=
  @claim_append p claimed [] claimed (by simp) names

/-- The names of an import that are entry points and that no earlier import lists. -/
def contribution (e : EntryPoints) (earlier : List ImportBinding) (names : List String) :
    List String :=
  firstPlaces (fun n => e.contains n && earlier.all fun i => !i.names.contains n) names

example : contribution ⟨["b", "c", "a"]⟩ [⟨["b", "d"], "./x"⟩] ["a", "b", "a", "c", "d"] =
    ["a", "c"] := by
  decide

theorem claim_eq_contribution {e : EntryPoints} {claimed : List String}
    {earlier : List ImportBinding}
    (h : ∀ n ∈ e.names, (n ∈ claimed ↔ ∃ i ∈ earlier, n ∈ i.names)) (names : List String) :
    claim e.contains claimed names = contribution e earlier names := by
  rw [claim_eq_firstPlaces]
  apply firstPlaces_congr
  intro n _
  rw [Bool.eq_iff_iff]
  by_cases he : n ∈ e.names
  · simp [he, h n he]
  · simp [he]

theorem contributions_eq_mapIdx {e : EntryPoints} {claimed : List String}
    {earlier : List ImportBinding}
    (h : ∀ n ∈ e.names, (n ∈ claimed ↔ ∃ i ∈ earlier, n ∈ i.names))
    (imports : List ImportBinding) :
    contributions e claimed imports =
      imports.mapIdx fun k i => ⟨contribution e (earlier ++ imports.take k) i.names, i.path⟩ := by
  induction imports generalizing claimed earlier with
  | nil => rfl
  | cons i imports ih =>
    have hnext : ∀ n ∈ e.names, (n ∈ claimed ++ claim e.contains claimed i.names ↔
        ∃ j ∈ earlier ++ [i], n ∈ j.names) := by
      intro n hn
      rw [List.mem_append, mem_claim, EntryPoints.contains_iff, h n hn]
      simp only [List.mem_append, List.mem_singleton, or_and_right, exists_or, exists_eq_left]
      by_cases hc : ∃ j ∈ earlier, n ∈ j.names <;> simp [hc, hn]
    rw [contributions, List.mapIdx_cons, ih hnext, claim_eq_contribution h]
    simp

/-- What is kept of each import is its own contribution, and the imports without one are dropped. -/
theorem resolve_contribution (imports : List ImportBinding) (e : EntryPoints) :
    let contributed : List ImportBinding :=
      imports.mapIdx fun k i => ⟨contribution e (imports.take k) i.names, i.path⟩
    (resolve imports e).imports = contributed.filter (fun i => i.names ≠ []) ∧
    (resolve imports e).dropped =
      (contributed.filter fun i => i.names = []).map ImportBinding.path := by
  intro contributed
  have hparts : contributions e [] imports = contributed :=
    @contributions_eq_mapIdx e [] [] (by simp) imports
  have hempty (i : ImportBinding) : i.names.isEmpty = decide (i.names = []) := by
    rw [Bool.eq_iff_iff, List.isEmpty_iff, decide_eq_true_iff]
  simp only [resolve, hparts, hempty, ne_eq, decide_not, and_self]

theorem unbacked_eq_firstPlaces (imports : List ImportBinding) (e : EntryPoints) :
    (resolve imports e).unbacked =
      firstPlaces (fun n => imports.all fun i => !i.names.contains n) e.names := by
  refine (claim_eq_firstPlaces _ _ _).trans (firstPlaces_congr fun n hn => ?_)
  rw [Bool.eq_iff_iff]
  simp only [Bool.true_and, Bool.not_eq_true', List.contains_eq_mem, decide_eq_false_iff_not,
    mem_flatMap_contributions, List.not_mem_nil, not_false_eq_true, true_and, hn, not_exists,
    not_and, List.all_eq_true]

theorem resolve_partition (imports : List ImportBinding) (e : EntryPoints) :
    let r := resolve imports e
    let accounted := r.imports.flatMap ImportBinding.names ++ r.unbacked
    accounted.Nodup ∧ (∀ n, n ∈ accounted ↔ n ∈ e.names) ∧
    r.unbacked = firstPlaces (fun n => imports.all fun i => !i.names.contains n) e.names ∧
    (∀ n, n ∈ r.unbacked ↔ n ∈ e.names ∧ ∀ i ∈ imports, n ∉ i.names) ∧
    (r.isFullyBacked = true ↔ ∀ n ∈ e.names, ∃ i ∈ imports, n ∈ i.names) := by
  intro r accounted
  have htaken (n : String) : n ∈ r.imports.flatMap ImportBinding.names ↔
      n ∈ e.names ∧ ∃ i ∈ imports, n ∈ i.names := by
    rw [flatMap_names_resolve, mem_flatMap_contributions]
    simp
  refine ⟨?_, ?_, unbacked_eq_firstPlaces imports e, fun n => mem_unbacked_resolve,
    isFullyBacked_resolve⟩
  · rw [List.nodup_append]
    refine ⟨?_, nodup_claim _ _ _, ?_⟩
    · rw [flatMap_names_resolve]
      exact nodup_flatMap_contributions e [] imports
    · rintro n hn m hm rfl
      obtain ⟨-, i, hi, hin⟩ := (htaken n).mp hn
      exact (mem_unbacked_resolve.mp hm).2 i hi hin
  · intro n
    rw [List.mem_append, htaken, mem_unbacked_resolve]
    constructor
    · rintro (⟨hn, -⟩ | ⟨hn, -⟩) <;> exact hn
    · intro hn
      by_cases hi : ∃ i ∈ imports, n ∈ i.names
      · exact .inl ⟨hn, hi⟩
      · exact .inr ⟨hn, fun i hm hin => hi ⟨i, hm, hin⟩⟩

end ServerActions.Resolution
