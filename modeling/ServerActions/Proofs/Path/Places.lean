import ServerActions.Proofs.Path.Components

namespace ServerActions.Path

open Text

def Component.enter : List Component → Component → List Component
  | _, .root => [.root]
  | place, .current => place
  | place, .name n => .name n :: place
  | .name _ :: above, .parent => above
  | [.root], .parent => [.root]
  | place, .parent => .parent :: place

def placeFrom (place : List Component) (p : Path) : List Component :=
  p.components.foldl Component.enter place

def place (p : Path) : List Component :=
  p.placeFrom []

theorem placeFrom_step {s : String} (hs : s ≠ "") (t : String) (place : List Component) :
    placeFrom place ⟨s ++ "/" ++ t⟩ = (below t).foldl Component.enter (placeFrom place ⟨s⟩) := by
  rw [placeFrom, components_step hs, List.foldl_append, placeFrom]

theorem placeFrom_current (t : String) (place : List Component) :
    placeFrom place ⟨"./" ++ t⟩ = (below t).foldl Component.enter place :=
  placeFrom_step (by decide : "." ≠ "") t place

theorem placeFrom_parent (t : String) (place : List Component) :
    placeFrom place ⟨"../" ++ t⟩ =
      (below t).foldl Component.enter (Component.enter place .parent) :=
  placeFrom_step (by decide : ".." ≠ "") t place

theorem foldl_enter_names {cs : List Component} (h : ∀ c ∈ cs, ∃ n, c = .name n)
    (place : List Component) : cs.foldl Component.enter place = cs.reverse ++ place := by
  induction cs generalizing place with
  | nil => rfl
  | cons c cs ih =>
    obtain ⟨n, rfl⟩ := h c List.mem_cons_self
    rw [List.foldl_cons, Component.enter, ih fun d hd => h d (List.mem_cons_of_mem _ hd),
      List.reverse_cons, List.append_assoc, List.singleton_append]

theorem root_not_mem_enter {place : List Component} {c : Component} (h : .root ∉ place)
    (hc : c ≠ .root) : .root ∉ Component.enter place c := by
  fun_cases Component.enter place c <;> simp_all

theorem root_not_mem_foldl_enter {cs place : List Component} (h : .root ∉ place)
    (hcs : .root ∉ cs) : .root ∉ cs.foldl Component.enter place := by
  induction cs generalizing place with
  | nil => exact h
  | cons c cs ih =>
    rw [List.mem_cons, not_or] at hcs
    exact ih (root_not_mem_enter h (Ne.symm hcs.1)) hcs.2

def Component.rise : Component → Int
  | .name _ => 1
  | .parent => -1
  | _ => 0

def height : List Component → Int
  | [] => 0
  | c :: place => c.rise + height place

theorem height_enter {place : List Component} (h : .root ∉ place) {c : Component} (hc : c ≠ .root) :
    height (Component.enter place c) = height place + c.rise := by
  fun_cases Component.enter place c with
  | case1 => exact absurd rfl hc
  | case2 => exact (Int.add_zero _).symm
  | case3 n => exact Int.add_comm _ _
  | case4 n above =>
    simp only [height, Component.rise]
    omega
  | case5 => simp at h
  | case6 => exact Int.add_comm _ _

theorem height_foldl_enter {cs place : List Component} (h : .root ∉ place) (hcs : .root ∉ cs) :
    height (cs.foldl Component.enter place) = height place + height cs := by
  induction cs generalizing place with
  | nil => exact (Int.add_zero _).symm
  | cons c cs ih =>
    rw [List.mem_cons, not_or] at hcs
    have hc : c ≠ .root := Ne.symm hcs.1
    rw [List.foldl_cons, ih (root_not_mem_enter h hc) hcs.2, height_enter h hc, height,
      Int.add_assoc]

theorem height_placeFrom_current {place : List Component} (h : .root ∉ place) (t : String) :
    height (placeFrom place ⟨"./" ++ t⟩) = height place + height (below t) := by
  rw [placeFrom_current, height_foldl_enter h (root_not_mem_below t)]

theorem height_placeFrom_parent {place : List Component} (h : .root ∉ place) (t : String) :
    height (placeFrom place ⟨"../" ++ t⟩) = height place - 1 + height (below t) := by
  have hc : Component.parent ≠ .root := by simp
  rw [placeFrom_parent, height_foldl_enter (root_not_mem_enter h hc) (root_not_mem_below t),
    height_enter h hc]
  rfl

theorem root_not_mem_place_directory {p : Path} (h : p.isAbsolute = false) :
    .root ∉ p.directory.place := by
  apply root_not_mem_foldl_enter List.not_mem_nil
  intro hr
  have ha := root_mem_components_iff.mp (directory_components_subset p hr)
  rw [h] at ha
  cases ha

end ServerActions.Path
