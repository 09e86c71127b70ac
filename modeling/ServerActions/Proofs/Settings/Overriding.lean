import ServerActions.Proofs.Settings.Fields
import ServerActions.Proofs.Toml.Sections

namespace ServerActions.Settings

open Toml

/-- The assignments of a table of settings: some of them get their values, and all other keys are
names of none. -/
structure Assigns (c : Settings) (fields : List Field) (pairs : List (List String × Content)) :
    Prop where
  known : ∀ f ∈ fields, ([f.name], .scalar (c.value f)) ∈ pairs
  others : ∀ a ∈ pairs, (∃ f ∈ fields, a = ([f.name], .scalar (c.value f))) ∨
    ∀ f : Field, a.1.head? ≠ some f.name

theorem Assigns.holds {c : Settings} {fields : List Field} {pairs : List (List String × Content)}
    (h : Assigns c fields pairs) {vs : Assignments} {own : List (Key × Node)}
    (hshows : List.Forall₂ (ShowsPair ShowsContent) pairs vs) (hfilled : Filled vs own) :
    Holds c fields own where
  values e he f hf := by
    obtain ⟨v, hv, ⟨k, hk, hname⟩, hsingle⟩ := hfilled.sound e he
    obtain ⟨a, ha, hpair⟩ := exists_pair hshows hv
    have hhead : a.1.head? = some f.name := by
      rw [← hpair.path, names, List.head?_map, hk, ← hf, hname]
      rfl
    -- the field comes from a key of its own, or else from one that is the name of no setting
    rcases h.others a ha with ⟨g, hg, rfl⟩ | hother
    · obtain rfl : g = f := Field.name_injective (Option.some.inj hhead)
      obtain ⟨k', hk', -⟩ := names_eq_single hpair.path
      rw [hsingle (by rw [hk']; rfl)]
      exact ⟨hg, hpair.value⟩
    · exact absurd hhead (hother f)
  all f hf := by
    obtain ⟨⟨path, v⟩, hv, hpair⟩ := exists_assignment hshows (h.known f hf)
    obtain ⟨k, rfl, hk⟩ := names_eq_single hpair.path
    exact ⟨(k, v), hfilled.complete k v hv, hk⟩

theorem parse_of_generate {text : String} {span : Option Span} {form : Form} {k : Key} {v : Node}
    {others : List (Key × Node)} {s : Settings}
    (h : read? text = some (.table span form ((k, v) :: others))) (hk : k.name = "generate")
    (hs : ofNode k.span v = .ok s) : parse text = .ok s := by
  rw [parse, h]
  show (ofRoot ((k, v) :: others)).mapError _ = _
  rw [ofRoot, if_pos hk, hs]
  rfl

end ServerActions.Settings
