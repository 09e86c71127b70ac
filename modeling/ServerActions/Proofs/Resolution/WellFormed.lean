import ServerActions.Proofs.Declaration.WellFormed
import ServerActions.Proofs.Resolution.Claiming

namespace ServerActions.Resolution

open Declaration

structure WellFormed (r : Resolution) : Prop where
  imports : ∀ i ∈ r.imports, i.WellFormed
  dropped : ∀ path ∈ r.dropped, IsSpecifier path
  unbacked : ∀ n ∈ r.unbacked, IsName n

theorem mem_dropped_resolve {imports : List ImportBinding} {e : EntryPoints} {path : String} :
    path ∈ (resolve imports e).dropped ↔
      ∃ part ∈ contributions e [] imports, part.names = [] ∧ part.path = path := by
  simp [resolve, and_assoc]

theorem wellFormed_of_mem_contributions {e : EntryPoints} {claimed : List String}
    {imports : List ImportBinding} (hi : ∀ i ∈ imports, i.WellFormed) {part : ImportBinding}
    (h : part ∈ contributions e claimed imports) : part.WellFormed := by
  obtain ⟨i, him, hpath, hnames⟩ := mem_contributions h
  constructor
  · intro n hn
    exact (hi i him).isName n (hnames n hn)
  · rw [hpath]
    exact (hi i him).isSpecifier

theorem wellFormed_resolve {imports : List ImportBinding} {e : EntryPoints}
    (hi : ∀ i ∈ imports, i.WellFormed) (he : e.WellFormed) : (resolve imports e).WellFormed := by
  constructor
  · intro i hk
    exact wellFormed_of_mem_contributions hi (mem_imports_resolve.mp hk).1
  · intro path hd
    obtain ⟨part, hp, -, rfl⟩ := mem_dropped_resolve.mp hd
    exact (wellFormed_of_mem_contributions hi hp).isSpecifier
  · intro n hn
    exact he n (mem_unbacked_resolve.mp hn).1

/-- The bindings and the entry points that some text holds are exactly the well-formed ones.
Resolution keeps them well formed, and keeps no import without a name. -/
theorem scan_resolve_wellFormed :
    (∀ b, (∃ content, b ∈ importsIn content) ↔ b.WellFormed) ∧
    (∀ factory e, (∃ content, e ∈ callsIn factory content) ↔ e.WellFormed) ∧
    ∀ imports e, (∀ i ∈ (resolve imports e).imports, i.names ≠ []) ∧
      ((∀ i ∈ imports, i.WellFormed) → e.WellFormed → (resolve imports e).WellFormed) := by
  refine ⟨fun b => exists_mem_importsIn_iff, fun factory e => exists_mem_callsIn_iff, ?_⟩
  intro imports e
  constructor
  · intro i hi
    exact (mem_imports_resolve.mp hi).2
  · exact wellFormed_resolve

def crowdedText : String :=
  "import \x7b\u3000a from b ,, c;\u2003\x7d from './x';import \x7b , \x7d from \"*\";f(\x7bc;,d\x7d)"

theorem scan_resolve_wellFormed_crowded :
    let imports := importsIn crowdedText
    let e : EntryPoints := ⟨["c;", "d"]⟩
    imports = [⟨["a from b", "c;"], "./x"⟩, ⟨[], "*"⟩] ∧ e ∈ callsIn "f" crowdedText ∧
      (∀ i ∈ imports, i.WellFormed) ∧ e.WellFormed ∧
      resolve imports e = ⟨[⟨["c;"], "./x"⟩], ["*"], ["d"]⟩ ∧ (resolve imports e).WellFormed := by
  intro imports e
  obtain ⟨hscan, hcalls, hresolve⟩ := scan_resolve_wellFormed
  have himports : imports = [⟨["a from b", "c;"], "./x"⟩, ⟨[], "*"⟩] := by decide +kernel
  have hcall : e ∈ callsIn "f" crowdedText := by decide +kernel
  have hresolved : resolve imports e = ⟨[⟨["c;"], "./x"⟩], ["*"], ["d"]⟩ := by decide +kernel
  have hi : ∀ i ∈ imports, i.WellFormed := fun i hi => (hscan i).mp ⟨crowdedText, hi⟩
  have he : e.WellFormed := (hcalls "f" e).mp ⟨crowdedText, hcall⟩
  exact ⟨himports, hcall, hi, he, hresolved, (hresolve imports e).2 hi he⟩

end ServerActions.Resolution
