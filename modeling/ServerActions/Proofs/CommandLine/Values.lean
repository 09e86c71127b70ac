import ServerActions.Proofs.CommandLine.Stages

namespace ServerActions

open CommandLine

def Ensures {α : Type} (P : α → Prop) (x : Except Notice α) : Prop :=
  ∀ a, x = .ok a → P a

variable {α β : Type} {P : α → Prop} {Q : β → Prop}

theorem ensures_ok {a : α} (h : P a) : Ensures P (.ok a) := by
  rintro b hb
  obtain rfl := Except.ok.inj hb
  exact h

theorem ensures_error (notice : Notice) : Ensures P (.error notice) := by
  rintro b hb
  cases hb

theorem Ensures.bind {x : Except Notice α} {f : α → Except Notice β} (hx : Ensures P x)
    (hf : ∀ a, P a → Ensures Q (f a)) : Ensures Q (x >>= f) := by
  cases x with
  | error notice => exact ensures_error notice
  | ok a => exact hf a (hx a rfl)

theorem ensures_bind {x : Except Notice α} {f : α → Except Notice β}
    (hf : ∀ a, Ensures Q (f a)) : Ensures Q (x >>= f) :=
  Ensures.bind (P := fun _ => True) (fun _ _ => trivial) fun a _ => hf a

namespace CommandLine

namespace Given

def PathFilled (g : Given) : Prop :=
  g.path ≠ some ""

variable {g : Given}

theorem ensures_takeConfig (hg : g.PathFilled) (value : String) :
    Ensures PathFilled (g.takeConfig value) := by
  rw [takeConfig]
  split_ifs
  · exact ensures_error _
  · exact ensures_error _
  · exact ensures_ok hg

theorem ensures_settle (hg : g.PathFilled) : Ensures PathFilled g.settle := by
  rw [settle]
  split
  · exact ensures_ok hg
  · exact ensures_error _
  · exact ensures_takeConfig hg _
  · split_ifs with hv
    · exact ensures_error _
    · exact ensures_ok fun hp => hv (Option.some.inj hp)

theorem ensures_takeFlag (hg : g.PathFilled) (scope : Scope) (flag : Flag) :
    Ensures PathFilled (g.takeFlag scope flag) := by
  refine (ensures_settle hg).bind fun g hg => ?_
  split
  · exact ensures_error _
  · exact ensures_error _
  · split_ifs
    · exact ensures_error _
    · exact ensures_ok hg

theorem ensures_takeLetters (hg : g.PathFilled) (scope : Scope) (letters : List Char) :
    Ensures PathFilled (takeLetters scope g letters) := by
  induction letters generalizing g with
  | nil => exact ensures_ok hg
  | cons c letters ih =>
    rw [takeLetters]
    split
    · exact (ensures_takeFlag hg scope _).bind fun g hg => ih hg
    · exact ensures_error _

theorem ensures_takeLong (hg : g.PathFilled) (scope : Scope) (name : List Char)
    (value : Option (List Char)) : Ensures PathFilled (g.takeLong scope name value) := by
  unfold takeLong
  split_ifs
  · refine (ensures_settle hg).bind fun g hg => ?_
    split
    · exact ensures_takeConfig hg _
    · exact ensures_ok hg
  · split
    · exact ensures_takeFlag hg scope _
    · exact ensures_error _
    · exact ensures_error _

theorem ensures_takePath (hg : g.PathFilled) (value : String) :
    Ensures PathFilled (g.takePath value) := by
  rw [takePath]
  split_ifs
  · exact ensures_error _
  · exact (ensures_settle hg).bind fun g hg => ensures_ok hg

theorem ensures_takeRest (hg : g.PathFilled) (as : List String) :
    Ensures PathFilled (takeRest g as) := by
  induction as generalizing g with
  | nil => exact ensures_settle hg
  | cons a as ih => exact (ensures_takePath hg a).bind fun g hg => ih hg

theorem ensures_takeAll (hg : g.PathFilled) (scope : Scope) (as : List String) :
    Ensures PathFilled (takeAll scope g as) := by
  induction as generalizing g with
  | nil => exact ensures_settle hg
  | cons a as ih =>
    rw [takeAll]
    split
    · exact ensures_takeRest hg as
    · exact (ensures_takeLong hg scope _ _).bind fun g hg => ih hg
    · exact (ensures_takeLetters hg scope _).bind fun g hg => ih hg
    · split_ifs
      · exact ih hg
      · exact (ensures_takePath hg a).bind fun g hg => ih hg

end Given

open Given

def Command.PathFilled (c : Command) : Prop :=
  c.path ≠ some ⟨""⟩

theorem Given.PathFilled.map {g : Given} (h : g.PathFilled) : g.path.map Path.mk ≠ some ⟨""⟩ := by
  intro hp
  obtain ⟨value, hv, hempty⟩ := Option.map_eq_some_iff.mp hp
  rw [Path.mk.inj hempty] at hv
  exact h hv

theorem ensures_parseGenerate (before : Given) (as : List String) :
    Ensures (·.command.PathFilled) (parseGenerate before as) := by
  have hafter : Ensures PathFilled (takeAll .generate {} as) :=
    ensures_takeAll (by simp [PathFilled]) _ as
  exact hafter.bind fun after hafter => ensures_bind fun before => ensures_ok hafter.map

theorem ensures_parseCheck (before : Given) (as : List String) :
    Ensures (·.command.PathFilled) (parseCheck before as) := by
  have hafter : Ensures PathFilled (takeAll .check {} as) :=
    ensures_takeAll (by simp [PathFilled]) _ as
  exact hafter.bind fun after hafter => ensures_bind fun before => ensures_ok hafter.map

theorem ensures_parseFrom (g : Given) (as : List String) :
    Ensures (·.command.PathFilled) (parseFrom g as) := by
  have hend (g : Given) : Ensures (fun a : Arguments => a.command.PathFilled) (endWithout g) :=
    ensures_bind fun _ => ensures_error _
  induction as generalizing g with
  | nil => exact hend g
  | cons a as ih =>
    rw [parseFrom]
    split
    · exact ensures_parseGenerate g as
    split
    · exact ensures_parseCheck g as
    split
    · exact ensures_error _
    split
    · split
      · exact ensures_error _
      · exact hend g
    · exact ensures_bind fun g => ih g
    · exact ensures_bind fun g => ih g
    · split_ifs
      · exact ih _
      · exact ensures_error _

theorem path_ne_empty_of_parse {as : List String} {a : Arguments} (h : parse as = .ok a) :
    a.command.path ≠ some ⟨""⟩ :=
  ensures_parseFrom {} as a h

end CommandLine

end ServerActions
