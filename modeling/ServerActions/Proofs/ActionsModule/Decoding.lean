import ServerActions.Proofs.ActionsModule.Scanning
import ServerActions.Proofs.Resolution.WellFormed

namespace ServerActions.ActionsModule

open Text Declaration

theorem EndsInExport.unique {s : List Char} {names names' : List String}
    (h : EndsInExport s names) (h' : EndsInExport s names') : names = names' := by
  obtain ⟨gap, body, he, hgap, rfl⟩ := h
  obtain ⟨gap', body', he', hgap', rfl⟩ := h'
  let p (c : Char) : Bool := c == ';' || c == '\n'
  have hp {g : List Char} (hg : ∀ c ∈ g, c = ';' ∨ c = '\n') : ∀ c ∈ g, p c = true := by
    intro c hc
    simpa [p] using hg c hc
  have hs (b : Body) : Stops p ("export ".toList ++ (braced b ++ ['\n'])) := stops_cons rfl
  rw [he] at he'
  simp only [List.append_assoc] at he'
  obtain ⟨-, ht⟩ := span_inj (hp hgap) (hp hgap') (hs body) (hs body') he'
  rw [(braced_inj (List.append_cancel_left ht)).1]

theorem dotted_injective : Function.Injective dotted := by
  rintro ⟨names, path⟩ ⟨names', path'⟩ h
  obtain ⟨hn, hp⟩ := ImportBinding.mk.inj h
  have hp' := String.toList_inj.mpr hp
  simp only [String.toList_append, List.append_cancel_left_eq, String.toList_inj] at hp'
  exact congrArg₂ ImportBinding.mk hn hp'

theorem renderable_resolve {factory content : String} {d : Declaration}
    (h : Declaration.read? factory content = some d) :
    Renderable (resolve d.imports d.entryPoints).imports d.entryPoints := by
  obtain ⟨himports, hentries⟩ := wellFormed_of_read h
  have hkept := (Resolution.wellFormed_resolve himports hentries).imports
  constructor
  · intro i hi
    exact (Resolution.mem_imports_resolve.mp hi).2
  · intro i hi
    exact (hkept i hi).isName
  · intro i hi
    exact (hkept i hi).isSpecifier.unquoted
  · exact hentries

/-- Decoding undoes rendering: a scan gives the imports back, each specifier with one more dot, and
the export statement at the end gives the entry points back, so no two modules of one directive
have the same text.  Every declaration resolves to a module that can be read back. -/
theorem render_decode {directive : String}
    (hd : ¬ "import".toList <:+: directive.toList.map Char.toLower) :
    (∀ imports e, Renderable imports e →
      importsIn (render directive imports e) = imports.map dotted ∧
        EndsInExport (afterImports directive (render directive imports e)) e.names) ∧
    (∀ imports e imports' e', Renderable imports e → Renderable imports' e' →
      render directive imports e = render directive imports' e' → imports = imports' ∧ e = e') ∧
    ∀ factory content d, Declaration.read? factory content = some d →
      Renderable (resolve d.imports d.entryPoints).imports d.entryPoints := by
  refine ⟨fun imports e h => scan_render hd h, ?_, fun _ _ _ => renderable_resolve⟩
  intro imports e imports' e' h h' he
  obtain ⟨hi, hend⟩ := scan_render hd h
  obtain ⟨hi', hend'⟩ := scan_render hd h'
  rw [he] at hi hend
  constructor
  · exact (List.map_inj_right dotted_injective).mp (hi.symm.trans hi')
  · have hn := hend.unique hend'
    cases e
    cases e'
    exact congrArg EntryPoints.mk hn

def oddImports : List ImportBinding :=
  [⟨["a", "b from \"./z\";\nimport \x7b c"], "./x"⟩, ⟨["d"], ""⟩]

theorem render_decode_odd_names :
    ¬ "import".toList <:+: "use server".toList.map Char.toLower ∧
      (importsIn (render "use server" oddImports ⟨["d", "a", "a"]⟩) = oddImports.map dotted ∧
        EndsInExport (afterImports "use server" (render "use server" oddImports ⟨["d", "a", "a"]⟩))
          ["d", "a", "a"]) ∧
      render "use server" oddImports ⟨["d", "a", "a"]⟩ ≠
        render "use server" oddImports ⟨["d", "a"]⟩ ∧
      Declaration.read? "f" "import \x7b a \x7d from './x';f(\x7ba\x7d)" =
        some ⟨[⟨["a"], "./x"⟩], ⟨["a"]⟩, 0⟩ ∧
      Renderable (resolve [⟨["a"], "./x"⟩] ⟨["a"]⟩).imports ⟨["a"]⟩ := by
  have hd : ¬ "import".toList <:+: "use server".toList.map Char.toLower := by decide +kernel
  have h₁ : Renderable oddImports ⟨["d", "a", "a"]⟩ := by decide +kernel
  have h₂ : Renderable oddImports ⟨["d", "a"]⟩ := by decide +kernel
  have hread : Declaration.read? "f" "import \x7b a \x7d from './x';f(\x7ba\x7d)" =
      some ⟨[⟨["a"], "./x"⟩], ⟨["a"]⟩, 0⟩ := by
    decide +kernel
  obtain ⟨hdecode, hinj, hresolve⟩ := render_decode hd
  refine ⟨hd, hdecode _ _ h₁, ?_, hread, hresolve _ _ _ hread⟩
  intro he
  cases (hinj _ _ _ _ h₁ h₂ he).2

end ServerActions.ActionsModule
