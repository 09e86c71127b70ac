import Mathlib.Data.List.Infix
import ServerActions.Proofs.Toml.Grammar

/-!
When no key of a document is defined twice: every path has at most one role, and a heading or a key
may come only where the roles before it allow it.
-/

namespace ServerActions.Toml

/-- What a path stands for.  A header, longer headers or keys with points have made its table. -/
inductive Role
  | value
  | tables
  | header
  | implied
  | dotted
  deriving DecidableEq

abbrev Roles := List String → Option Role

namespace Roles

def leaf (r : Role) : Roles :=
  fun q => if q = [] then some r else none

def below (E : Roles) (along : Role) (p : List String) : Roles :=
  if E p = none then leaf along else fun q => E (p ++ q)

/-- New roles below a path, with the role `along` for all tables that are missing on the way. -/
def graft (E : Roles) (along : Role) (p : List String) (G : Roles) : Roles :=
  fun q => if p <+: q then G (q.drop p.length) else if q <+: p then (E q).or (some along) else E q

/-- Keys lead through tables that are made by keys with points or by longer headers, and are added
only to the former. -/
def Assignable (E : Roles) (key : List String) : Prop :=
  E key = none ∧ (1 < key.length → E key.dropLast ≠ some .implied) ∧
    ∀ q ∈ key.inits, q ≠ [] → q ≠ key → E q ∈ [none, some .dotted, some .implied]

instance (E : Roles) (key : List String) : Decidable (E.Assignable key) :=
  inferInstanceAs (Decidable (_ ∧ (_ → _) ∧ _))

def assigned (E : Roles) (key : List String) : Roles :=
  E.graft .dotted key (leaf .value)

def AllAssignable : Roles → List (List String) → Prop
  | _, [] => True
  | E, key :: keys => E.Assignable key ∧ AllAssignable (E.assigned key) keys

instance decidableAllAssignable : (E : Roles) → (keys : List (List String)) →
    Decidable (E.AllAssignable keys)
  | _, [] => inferInstanceAs (Decidable True)
  | E, key :: keys =>
    have := decidableAllAssignable (E.assigned key) keys
    inferInstanceAs (Decidable (E.Assignable key ∧ (E.assigned key).AllAssignable keys))

def filled (E : Roles) (keys : List (List String)) : Roles :=
  keys.foldl assigned E

def admitted : Heading → List (Option Role)
  | .table _ => [none, some .implied]
  | .tables _ => [none, some .tables]

def Opens (E : Roles) (h : Heading) : Prop :=
  E h.path ∈ admitted h ∧ ∀ q ∈ h.path.inits, q ≠ h.path → E q ≠ some .value

instance (E : Roles) (h : Heading) : Decidable (E.Opens h) :=
  inferInstanceAs (Decidable (_ ∧ _))

def opened (E : Roles) : Heading → Roles
  | .table path => fun q => if q = [] then some .header else E (path ++ q)
  | .tables _ => leaf .tables

def extended (E : Roles) (h : Heading) (keys : List (List String)) : Roles :=
  E.graft .implied h.path ((E.opened h).filled keys)

/-- No key is defined twice by the sections of a document. -/
def DefinesOnce : Roles → List (Heading × List (List String)) → Prop
  | _, [] => True
  | E, (h, keys) :: more =>
    E.Opens h ∧ (E.opened h).AllAssignable keys ∧ DefinesOnce (E.extended h keys) more

instance decidableDefinesOnce : (E : Roles) → (sections : List (Heading × List (List String))) →
    Decidable (E.DefinesOnce sections)
  | _, [] => inferInstanceAs (Decidable True)
  | E, (h, keys) :: more =>
    have := decidableDefinesOnce (E.extended h keys) more
    inferInstanceAs (Decidable (E.Opens h ∧ (E.opened h).AllAssignable keys ∧
      (E.extended h keys).DefinesOnce more))

example : ¬ DefinesOnce (leaf .header) [(.table ["a", "b"], [["c"]]), (.table ["a"], [["b"]])] := by
  decide

example : DefinesOnce (leaf .header)
    [(.tables ["o"], [["x", "y"]]), (.table ["o", "x", "z"], []), (.tables ["o"], [["x"]]),
      (.table ["a", "b"], [["c"]]), (.table ["a"], [["d"]])] := by
  decide

section Grafts

variable {E G : Roles} {along : Role} {p q : List String}

theorem below_of_some (h : E p ≠ none) : E.below along p = fun q => E (p ++ q) :=
  if_neg h

theorem below_of_none (h : E p = none) : E.below along p = leaf along :=
  if_pos h

theorem below_apply {r : List String} (hclosed : E p = none → ∀ q, E (p ++ q) = none)
    (hr : r ≠ []) : E.below along p r = E (p ++ r) := by
  by_cases h : E p = none
  · rw [below_of_none h, hclosed h, leaf, if_neg hr]
  · rw [below_of_some h]

theorem below_root_ne_none : E.below along p [] ≠ none := by
  by_cases h : E p = none
  · rw [below_of_none h]
    exact Option.some_ne_none _
  · rw [below_of_some h]
    simpa using h

theorem below_append (r : List String) (hclosed : E p = none → ∀ q, E (p ++ q) = none) :
    E.below along (p ++ r) = (E.below along p).below along r := by
  by_cases h : E p = none
  · rw [below_of_none h, below_of_none (hclosed h r)]
    by_cases hr : r = []
    · rw [hr]
      rfl
    · rw [below_of_none (if_neg hr)]
  · rw [below_of_some h]
    simp only [below, List.append_assoc]

theorem graft_append_self (q : List String) : E.graft along p G (p ++ q) = G q := by
  rw [graft, if_pos (List.prefix_append p q), List.drop_left]

theorem graft_nil (hp : p ≠ []) (h : E [] ≠ none) : E.graft along p G [] = E [] := by
  obtain ⟨r, hr⟩ := Option.ne_none_iff_exists'.mp h
  rw [graft, if_neg (by simpa using hp), if_pos List.nil_prefix, hr, Option.some_or]

theorem graft_root (h : E [] ≠ none) (hG : G [] = E.below along p []) :
    E.graft along p G [] = E [] := by
  by_cases hp : p = []
  · subst hp
    rw [below_of_some h] at hG
    exact hG
  · exact graft_nil hp h

theorem graft_other {name : String} (hp : p ≠ []) (h : p.head? ≠ some name) (q : List String) :
    E.graft along p G (name :: q) = E (name :: q) := by
  cases p with
  | nil => exact absurd rfl hp
  | cons n p =>
    have hn : n ≠ name := fun hn => h (congrArg some hn)
    rw [graft, if_neg fun hp => hn (List.cons_prefix_cons.mp hp).1,
      if_neg fun hp => hn (List.cons_prefix_cons.mp hp).1.symm]

theorem graft_append (r : List String) (hclosed : E p = none → ∀ q, E (p ++ q) = none) :
    E.graft along (p ++ r) G = E.graft along p ((E.below along p).graft along r G) := by
  funext q
  by_cases hp : p <+: q
  · obtain ⟨s, rfl⟩ := hp
    rw [graft_append_self]
    have hdrop : (p ++ s).drop (p ++ r).length = s.drop r.length := by
      rw [List.length_append, ← List.drop_drop, List.drop_left]
    simp only [graft, List.prefix_append_right_inj, hdrop]
    by_cases hE : E p = none
    · rw [below_of_none hE, hclosed hE, leaf]
      by_cases hs : s = []
      · simp [hs]
      · simp [hs]
    · rw [below_of_some hE]
  · have hpr : ¬ p ++ r <+: q := fun h => hp ((List.prefix_append p r).trans h)
    have hq : q <+: p ++ r ↔ q <+: p := by
      constructor
      · intro h
        exact (List.prefix_or_prefix_of_prefix h (List.prefix_append p r)).resolve_right hp
      · exact fun h => h.trans (List.prefix_append p r)
    rw [graft, graft, if_neg hpr, if_neg hp]
    simp only [hq]

end Grafts

end Roles

end ServerActions.Toml
