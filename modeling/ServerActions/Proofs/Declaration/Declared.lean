import Mathlib.Data.List.Sort
import ServerActions.Proofs.Declaration.Scanning

namespace ServerActions

namespace Text.Grammar

variable {α : Type} {G : Grammar α} {s : List Char} {found found' : List (Occurrence α)}

theorem IsScan.stop_le (h : G.IsScan s found) {o o' : Occurrence α} (ho : o ∈ found)
    (ho' : o' ∈ found) (hlt : o.start < o'.start) : o.stop ≤ o'.start := by
  obtain ⟨i, hi, rfl⟩ := List.getElem_of_mem ho
  obtain ⟨j, hj, rfl⟩ := List.getElem_of_mem ho'
  have hordered := List.pairwise_iff_getElem.mp h.ordered
  rcases Nat.lt_trichotomy i j with hij | rfl | hji
  · exact (hordered i j hi hj hij).2
  · exact absurd hlt (Nat.lt_irrefl _)
  · exact absurd hlt (Nat.lt_asymm (hordered j i hj hi hji).1)

theorem IsScan.subset (h : G.IsScan s found) (h' : G.IsScan s found') : found ⊆ found' := by
  intro o ho
  induction hn : o.start using Nat.strongRecOn generalizing o with
  | ind n ih =>
    subst hn
    rcases h'.complete o (h.sound o ho) with hm | ⟨f, hf, hfo, hof⟩
    · exact hm
    -- the other scan has an `f` around `o`, which the first scan has not: around `f` it has a `g`
    rcases h.complete f (h'.sound f hf) with hm | ⟨g, hg, hgf, hfg⟩
    · exact absurd (h.stop_le hm ho hfo) (Nat.not_le.mpr hof)
    · have hg' : g ∈ found' := ih g.start (Nat.lt_trans hgf hfo) hg rfl
      exact absurd (h'.stop_le hg' hf hgf) (Nat.not_le.mpr hfg)

theorem IsScan.unique (h : G.IsScan s found) (h' : G.IsScan s found') : found = found' := by
  let before (o o' : Occurrence α) : Prop := o.start < o'.start
  have : Std.Irrefl before := ⟨fun o => Nat.lt_irrefl o.start⟩
  have : Std.Antisymm before := ⟨fun _ _ ho ho' => absurd ho' (Nat.lt_asymm ho)⟩
  have hbefore {l : List (Occurrence α)} (hl : G.IsScan s l) : l.Pairwise before :=
    hl.ordered.imp fun ho => ho.1
  exact (hbefore h).eq_of_mem_iff (hbefore h') fun o => ⟨(h.subset h' ·), (h'.subset h ·)⟩

end Text.Grammar

namespace Declaration

open Text

/-- A text has the import statements and the factory calls of a declaration; the call that starts
first gives the entry points. -/
structure Declares (factory : String) (text : List Char) (d : Declaration) : Prop where
  imports : ∃ found, importGrammar.IsScan text found ∧ d.imports = found.map Occurrence.value
  calls : ∃ first others, (callGrammar factory).IsScan text (first :: others) ∧
    (∀ o, (callGrammar factory).Occurs text o → first.start ≤ o.start) ∧
    d.entryPoints = first.value ∧ d.extraCalls = others.length

theorem read_eq_some_iff_declares {factory content : String} {d : Declaration} :
    read? factory content = some d ↔ Declares factory content.toList d := by
  have hcalls := (callPattern_recognizes factory).isScan content.toList
  have himports := importPattern_recognizes.isScan content.toList
  rw [read_eq_some_iff]
  constructor
  · rintro ⟨calls, hc, hn, hi⟩
    rw [callsIn_eq_map] at hc
    obtain ⟨first, others, ho, hfirst, rfl⟩ := List.map_eq_cons_iff.mp hc
    rw [ho] at hcalls
    refine ⟨⟨_, himports, hi⟩, first, others, hcalls, fun o hoccurs => ?_, hfirst.symm, ?_⟩
    · rcases hcalls.head_least hoccurs with rfl | hlt
      · exact Nat.le_refl _
      · exact Nat.le_of_lt hlt
    · rw [hn, List.length_map]
  · rintro ⟨⟨found, hfound, hi⟩, first, others, hscan, -, hfirst, hn⟩
    refine ⟨others.map Occurrence.value, ?_, ?_, ?_⟩
    · rw [callsIn_eq_map, hcalls.unique hscan, List.map_cons, hfirst]
    · rw [hn, List.length_map]
    · rw [importsIn_eq_map, himports.unique hfound, hi]

theorem read_eq_none_iff_not_isInfix {factory content : String} :
    read? factory content = none ↔
      ∀ c : FactoryCall, ¬ c.text factory <:+: content.toList := by
  have hscan := (callPattern_recognizes factory).isScan content.toList
  rw [read_eq_none_iff, callsIn_eq_map, List.map_eq_nil_iff, hscan.eq_nil_iff, ← not_exists,
    exists_callOccurs_iff, not_exists]

theorem exists_declares_iff {factory content : String} :
    (∃ d, Declares factory content.toList d) ↔
      ∃ c : FactoryCall, c.text factory <:+: content.toList := by
  simp only [← read_eq_some_iff_declares]
  cases h : read? factory content with
  | none => simpa using read_eq_none_iff_not_isInfix.mp h
  | some d =>
    have hcall : ¬ ∀ c : FactoryCall, ¬ c.text factory <:+: content.toList := by
      rw [← read_eq_none_iff_not_isInfix, h]
      exact Option.some_ne_none d
    simpa using hcall

end Declaration

end ServerActions
