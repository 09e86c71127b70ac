import ServerActions.ActionsModule
import ServerActions.Proofs.Resolution.Contributions

namespace ServerActions

def EntryPoints.without (e : EntryPoints) (imports : List ImportBinding) : EntryPoints :=
  ⟨e.names.filter fun n => imports.all fun i => !i.names.contains n⟩

theorem EntryPoints.contains_without (e : EntryPoints) (imports : List ImportBinding)
    (n : String) :
    (e.without imports).contains n =
      (e.contains n && imports.all fun i => !i.names.contains n) := by
  rw [Bool.eq_iff_iff, contains_iff, without, List.mem_filter, Bool.and_eq_true, contains_iff]

namespace Resolution

theorem claim_filter (p wanted : String → Bool) (claimed names : List String) :
    claim wanted claimed (names.filter p) = claim (fun n => p n && wanted n) claimed names := by
  induction names generalizing claimed with
  | nil => rfl
  | cons n names ih =>
    by_cases hp : p n = true
    · rw [List.filter_cons_of_pos hp, claim, claim, ih, ih]
      simp only [hp, Bool.true_and]
    · rw [List.filter_cons_of_neg hp, claim, ih]
      simp only [hp, Bool.false_and, Bool.false_eq_true, if_false]

theorem firstPlaces_filter (p q : String → Bool) (names : List String) :
    firstPlaces q (names.filter p) = firstPlaces (fun n => p n && q n) names := by
  have hclaim (r : String → Bool) (names : List String) : firstPlaces r names = claim r [] names := by
    rw [claim_eq_firstPlaces]
    exact firstPlaces_congr (by simp)
  rw [hclaim, hclaim, claim_filter]

theorem contribution_append (e : EntryPoints) (earlier more : List ImportBinding)
    (names : List String) :
    contribution e (earlier ++ more) names = contribution (e.without earlier) more names := by
  apply firstPlaces_congr
  intro n _
  rw [List.all_append, EntryPoints.contains_without, Bool.and_assoc]

theorem contributions_append (first second : List ImportBinding) (e : EntryPoints) :
    contributions e [] (first ++ second) =
      contributions e [] first ++ contributions (e.without first) [] second := by
  have hparts (e : EntryPoints) (imports : List ImportBinding) : contributions e [] imports =
      imports.mapIdx fun k i => ⟨contribution e (imports.take k) i.names, i.path⟩ :=
    @contributions_eq_mapIdx e [] [] (by simp) imports
  rw [hparts, hparts, hparts, List.mapIdx_append]
  congr 1
  · apply List.mapIdx_eq_mapIdx_iff.mpr
    intro k hk
    rw [List.take_append_of_le_length (Nat.le_of_lt hk)]
  · apply List.mapIdx_eq_mapIdx_iff.mpr
    intro k hk
    rw [Nat.add_comm, List.take_length_add_append, contribution_append]

/-- Imports added at the end are resolved against the entry points that no earlier import has; the
lines that the earlier ones contribute stay in front. -/
theorem resolve_append (first second : List ImportBinding) (e : EntryPoints) :
    let all := resolve (first ++ second) e
    let rest := resolve second (e.without first)
    all.imports = (resolve first e).imports ++ rest.imports ∧
    all.dropped = (resolve first e).dropped ++ rest.dropped ∧
    all.unbacked = rest.unbacked ∧
    (resolve first e).imports.map ActionsModule.importLine <+:
      all.imports.map ActionsModule.importLine := by
  intro all rest
  have himports : all.imports = (resolve first e).imports ++ rest.imports := by
    simp only [all, rest, resolve, contributions_append, List.filter_append]
  refine ⟨himports, ?_, ?_, ?_⟩
  · simp only [all, rest, resolve, contributions_append, List.filter_append, List.map_append]
  · simp only [all, rest, unbacked_eq_firstPlaces, List.all_append, EntryPoints.without,
      firstPlaces_filter]
  · rw [himports, List.map_append]
    exact List.prefix_append _ _

end Resolution

end ServerActions
