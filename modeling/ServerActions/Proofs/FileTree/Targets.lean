import ServerActions.Proofs.FileTree.Walking

namespace ServerActions

def Location.enter : Location → Path.Component → Location
  | _, .root => []
  | l, .current => l
  | l, .parent => l.tail
  | l, .name n => n :: l

namespace FileTree

open ServerActions.Path

def enterStep (l : Location) (step : String) : Location :=
  if step = "." then l else if step = ".." then l.tail else step :: l

theorem enterStep_of_isDotStep {step : String} (h : isDotStep step = false) (l : Location) :
    enterStep l step = step :: l := by
  simp only [isDotStep, Bool.or_eq_false_iff, decide_eq_false_iff_not] at h
  rw [enterStep, if_neg h.1, if_neg h.2]

theorem walk_cons_eq_ok_iff {t : FileTree} {l m : Location} {step : String} {steps : List String} :
    t.walk l (step :: steps) = .ok m ↔
      t.get? l = some .directory ∧
        (isDotStep step = true ∨
          step.utf8ByteSize ≤ maxNameSize ∧ (t.get? (step :: l)).isSome = true) ∧
        t.walk (enterStep l step) steps = .ok m := by
  by_cases hd : t.get? l = some .directory
  · rw [walk, if_pos hd, enterStep, isDotStep]
    split_ifs with hdot hup hsize htaken
    · simp [hd, hdot]
    · simp [hd, hup]
    · simp [hdot, hup, Nat.not_le.mpr hsize]
    · simp [hd, Nat.not_lt.mp hsize, htaken]
    · simp [hdot, hup, htaken]
  · simp [walk, hd]

theorem walk_eq_foldl {t : FileTree} {l m : Location} {steps : List String}
    (h : t.walk l steps = .ok m) : m = steps.foldl enterStep l := by
  induction steps generalizing l with
  | nil => exact (Except.ok.inj h).symm
  | cons step steps ih => exact ih (walk_cons_eq_ok_iff.mp h).2.2

theorem directory_tail {t : FileTree} {l : Location} (h : t.get? l = some .directory) :
    t.get? l.tail = some .directory := by
  cases l with
  | nil => exact h
  | cons name parent => exact directory_of_get? h

theorem directory_enterStep {t : FileTree} {l : Location} {step : String}
    (hl : t.get? l = some .directory) (hdot : isDotStep step = true) :
    t.get? (enterStep l step) = some .directory := by
  rw [isDotStep, Bool.or_eq_true, decide_eq_true_eq, decide_eq_true_eq] at hdot
  rcases hdot with rfl | rfl
  · exact hl
  · exact directory_tail hl

def target (t : FileTree) (p : Path) : Location :=
  p.components.foldl Location.enter t.workingDirectory

theorem foldl_enterStep (pieces : List (List Char)) (l : Location) :
    ((pieces.filter (· != [])).map String.ofList).foldl enterStep l =
      ((pieces.filter (!isFiller ·)).map pieceComponent).foldl Location.enter l := by
  induction pieces generalizing l with
  | nil => rfl
  | cons piece pieces ih =>
    by_cases hnil : piece = []
    · rw [hnil]
      exact ih l
    by_cases hdot : piece = ['.']
    · rw [hdot]
      exact ih l
    by_cases hup : piece = ['.', '.']
    · rw [hup]
      exact ih l.tail
    have hname : enterStep l (String.ofList piece) = String.ofList piece :: l := by
      apply enterStep_of_isDotStep
      simp only [isDotStep, Bool.or_eq_false_iff, decide_eq_false_iff_not]
      constructor
      · exact fun h => hdot (by simpa using congrArg String.toList h)
      · exact fun h => hup (by simpa using congrArg String.toList h)
    rw [List.filter_cons_of_pos (by simpa using hnil),
      List.filter_cons_of_pos (by simp [isFiller, hnil, hdot]), List.map_cons, List.map_cons,
      List.foldl_cons, List.foldl_cons, hname, pieceComponent, if_neg hup]
    exact ih _

theorem foldl_enterStep_steps (t : FileTree) (p : Path) :
    p.steps.foldl enterStep (t.origin p) = t.target p := by
  rw [target, components_eq, List.foldl_append, steps, foldl_enterStep, names]
  congr 1
  rw [origin]
  rcases p.lead_cases with h | h | h
  · rw [if_pos (isAbsolute_iff.mpr h), h]
    rfl
  · rw [if_neg (by simp [isAbsolute_iff, h]), h]
    rfl
  · rw [if_neg (by simp [isAbsolute_iff, h]), h]
    rfl

theorem locate_eq_target {t : FileTree} {p : Path} {l : Location} (h : t.locate p = .ok l) :
    l = t.target p := by
  rw [locate] at h
  split at h
  · cases h
  · rw [← foldl_enterStep_steps]
    split_ifs at h
    · have hl := walk_eq_foldl h
      rw [List.foldl_append] at hl
      exact hl
    · exact walk_eq_foldl h

theorem target_of_workingDirectory {t u : FileTree} (h : u.workingDirectory = t.workingDirectory)
    (p : Path) : u.target p = t.target p := by
  rw [target, target, h]

theorem length_enter_le (l : Location) (c : Component) :
    (Location.enter l c).length ≤ l.length + 1 := by
  cases c with
  | root => exact Nat.zero_le _
  | current => exact Nat.le_succ _
  | parent =>
    rw [Location.enter, List.length_tail]
    omega
  | name n => exact Nat.le_refl _

theorem components_of_parent_eq_none {p : Path} (h : p.parent? = none) :
    p.components = [] ∨ p.components = [.root] := by
  obtain ⟨hl, hup⟩ := ancestorsOf_eq_nil (List.head?_eq_none_iff.mp h)
  have hn : p.names = [] := by
    simpa [names_eq, List.filter_eq_nil_iff] using hup
  rw [components_eq, hn, List.map_nil, List.append_nil]
  rcases p.lead_cases with h' | h' | h'
  · rw [h']
    exact .inr rfl
  · exact absurd h' hl
  · rw [h']
    exact .inl rfl

theorem length_target_le (t : FileTree) (p : Path) :
    (t.target p).length ≤ (t.target p.directory).length + 1 := by
  rw [target, target, directory]
  cases hp : p.parent? with
  | none =>
    rcases components_of_parent_eq_none hp with hc | hc
    · rw [hc]
      exact Nat.le_succ _
    · rw [hc]
      exact Nat.zero_le _
  | some q =>
    rw [Option.getD_some, components_parent hp]
    rcases List.eq_nil_or_concat p.components with hc | ⟨above, last, hc⟩
    · rw [hc]
      exact Nat.le_succ _
    · rw [hc, List.concat_eq_append, List.dropLast_concat, List.foldl_append]
      exact length_enter_le _ _

end FileTree

end ServerActions
