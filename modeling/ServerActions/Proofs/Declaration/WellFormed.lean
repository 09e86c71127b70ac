import ServerActions.Proofs.ActionsModule.Scanning
import ServerActions.Proofs.Declaration.Scanning

namespace ServerActions

open Text Declaration

@[mk_iff]
structure Declaration.IsSpecifier (path : String) : Prop where
  ne_nil : path.toList ≠ []
  unquoted : '"' ∉ path.toList ∧ '\'' ∉ path.toList

instance (path : String) : Decidable (IsSpecifier path) :=
  decidable_of_iff _ (isSpecifier_iff path).symm

@[mk_iff]
structure ImportBinding.WellFormed (i : ImportBinding) : Prop where
  isName : ∀ n ∈ i.names, IsName n
  isSpecifier : IsSpecifier i.path

instance (i : ImportBinding) : Decidable i.WellFormed :=
  decidable_of_iff _ i.wellFormed_iff.symm

def EntryPoints.WellFormed (e : EntryPoints) : Prop :=
  ∀ n ∈ e.names, IsName n

theorem ImportBinding.wellFormed_iff_exists_text {b : ImportBinding} :
    b.WellFormed ↔ ∃ t, importGrammar b t := by
  constructor
  · intro h
    let line := ActionsModule.lineStatement b h.isName h.isSpecifier.unquoted
    let path : Unquoted := ⟨b.path.toList, h.isSpecifier.ne_nil, h.isSpecifier.unquoted⟩
    let i : ImportStatement := { line with specifier := { line.specifier with path := path } }
    refine ⟨i.text, i, rfl, ?_⟩
    rw [ImportStatement.binding, String.ofList_toList]
    exact congrArg (ImportBinding.mk · b.path) (ActionsModule.splitNames_listBody h.isName)
  · rintro ⟨-, i, -, rfl⟩
    constructor
    · intro n hn
      exact isName_of_mem_splitNames i.body.property.2 hn
    · rw [ImportStatement.binding, isSpecifier_iff, String.toList_ofList]
      exact i.specifier.path.property

theorem EntryPoints.wellFormed_iff_exists_text {e : EntryPoints} (factory : String) :
    e.WellFormed ↔ ∃ t, callGrammar factory e t := by
  constructor
  · intro h
    let c : FactoryCall := ⟨noBlanks, ActionsModule.listBody e.names h, noBlanks⟩
    refine ⟨c.text factory, c, rfl, ?_⟩
    exact congrArg EntryPoints.mk (ActionsModule.splitNames_listBody h)
  · rintro ⟨-, c, -, rfl⟩ n hn
    exact isName_of_mem_splitNames c.body.property.2 hn

namespace Declaration

theorem exists_mem_importsIn_iff {b : ImportBinding} :
    (∃ content, b ∈ importsIn content) ↔ b.WellFormed := by
  rw [ImportBinding.wellFormed_iff_exists_text]
  exact importPattern_recognizes.exists_mem_values_iff

example : ¬ ∃ content, ⟨["a "], "./x"⟩ ∈ importsIn content := by
  rw [exists_mem_importsIn_iff]
  decide +kernel

theorem exists_mem_callsIn_iff {factory : String} {e : EntryPoints} :
    (∃ content, e ∈ callsIn factory content) ↔ e.WellFormed := by
  rw [EntryPoints.wellFormed_iff_exists_text factory]
  exact (callPattern_recognizes factory).exists_mem_values_iff

theorem wellFormed_of_read {factory content : String} {d : Declaration}
    (h : read? factory content = some d) :
    (∀ i ∈ d.imports, i.WellFormed) ∧ d.entryPoints.WellFormed := by
  obtain ⟨calls, hcalls, -, himports⟩ := read_eq_some_iff.mp h
  constructor
  · intro i hi
    rw [himports] at hi
    exact exists_mem_importsIn_iff.mp ⟨content, hi⟩
  · have hcall : d.entryPoints ∈ callsIn factory content := by
      rw [hcalls]
      exact List.mem_cons_self
    exact exists_mem_callsIn_iff.mp ⟨content, hcall⟩

end Declaration

end ServerActions
