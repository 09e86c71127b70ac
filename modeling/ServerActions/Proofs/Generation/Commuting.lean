import ServerActions.Proofs.ActionsModule.Specifiers
import ServerActions.Proofs.FileTree.Within
import ServerActions.Proofs.Generation.Operations

/-!
Two generations in either order.  The tree after the first order holds both modules and all the
directories above them, so nothing that the second order makes or writes is refused; and a written
module determines the tree.  Main statement: `generateBoth_comm`.
-/

namespace ServerActions

namespace FileTree

variable {t u v : FileTree} {p q : Path} {text text' : String} {bytes : ByteArray}

theorem Written.locate_eq_iff (h : t.Written u p text) {l : Location} :
    u.locate p = .ok l ↔ l = t.target p := by
  rw [h.locate_self, Except.ok.injEq, eq_comm]

theorem Written.within (h : t.Written u p text) : t.Within u := by
  refine ⟨h.extends, fun {l} hl hd => ?_⟩
  have hold : ¬ u.locate p = .ok l := by
    intro hp
    have hfile := get?_of_find h.find rfl hp
    rw [hd] at hfile
    cases hfile
  rw [← h.grows.kept l hold hl]
  exact hd

theorem Written.within_of_find (h : t.Written v p text) (hw : t.Within u)
    (hp : u.find p = .ok (.file bytes)) : v.Within u := by
  refine hw.of_grows h.grows (find_ancestor_of_find hp) fun l hl => ?_
  have hv : u.workingDirectory = v.workingDirectory :=
    hw.workingDirectory.trans h.grows.workingDirectory.symm
  exact ⟨_, bytes, get?_of_find h.find rfl hl, get?_of_find hp hv hl⟩

def IsAbove (t : FileTree) (p : Path) (l : Location) : Prop :=
  ∃ q ∈ p.ancestors, q.text ≠ "" ∧ t.target q = l

instance (t : FileTree) (p : Path) (l : Location) : Decidable (t.IsAbove p l) :=
  inferInstanceAs (Decidable (∃ q ∈ p.ancestors, q.text ≠ "" ∧ t.target q = l))

theorem isAbove_of_workingDirectory (h : u.workingDirectory = t.workingDirectory) {l : Location} :
    u.IsAbove p l ↔ t.IsAbove p l := by
  rw [IsAbove, IsAbove]
  simp only [target_of_workingDirectory h]

theorem Written.get?_eq (h : t.Written u p text) (l : Location) :
    u.get? l =
      if l = t.target p then some (.file text.toUTF8)
      else if (t.get? l).isSome = true then t.get? l
      else if t.IsAbove p l then some .directory
      else none := by
  have hw := h.grows.workingDirectory
  split_ifs with hl hs hq
  · exact get?_of_find h.find rfl (h.locate_eq_iff.mpr hl)
  · exact h.grows.kept l (fun hc => hl (h.locate_eq_iff.mp hc)) hs
  · obtain ⟨q, hmem, hne, rfl⟩ := hq
    rw [← target_of_workingDirectory hw]
    exact get?_target_of_find (h.above q hmem hne)
  · cases hu : u.get? l with
    | none => rfl
    | some e =>
      have hnew : t.get? l = none := by simpa using hs
      have hold : ¬ u.locate p = .ok l := fun hc => hl (h.locate_eq_iff.mp hc)
      obtain ⟨-, q, hmem, hloc⟩ := h.grows.added l hold hnew (by rw [hu]; rfl)
      have htarget := locate_eq_target hloc
      rw [target_of_workingDirectory hw] at htarget
      exact absurd ⟨q, hmem, text_ne_of_locate hloc, htarget.symm⟩ hq

theorem Written.comm {t₁ t₂ u₁ u₂ : FileTree} (h₁ : t.Written t₁ p text)
    (h₂ : t₁.Written u₁ q text') (h₂' : t.Written t₂ q text') (h₁' : t₂.Written u₂ p text)
    (hne : t.target p ≠ t.target q) : u₁ = u₂ := by
  have hw₁ := h₁.grows.workingDirectory
  have hw₂ := h₂'.grows.workingDirectory
  apply eq_of_get?
  · rw [h₂.grows.workingDirectory, h₁'.grows.workingDirectory, hw₁, hw₂]
  intro l
  rw [h₂.get?_eq, h₁'.get?_eq, h₁.get?_eq, h₂'.get?_eq]
  simp only [target_of_workingDirectory hw₁, target_of_workingDirectory hw₂,
    isAbove_of_workingDirectory hw₁, isAbove_of_workingDirectory hw₂]
  by_cases hp : l = t.target p
  · rw [if_neg (by rw [hp]; exact hne), if_pos hp, if_pos hp]
    rfl
  by_cases hq : l = t.target q
  · rw [if_pos hq, if_neg hp, if_pos hq]
    rfl
  by_cases hl : (t.get? l).isSome = true
  · simp only [if_neg hp, if_neg hq, if_pos hl]
  -- a directory that is above one of the modules, or both, whichever write made it
  by_cases hpa : t.IsAbove p l <;> by_cases hqa : t.IsAbove q l <;> simp [hp, hq, hl, hpa, hqa]

end FileTree

open FileTree ActionsModule

theorem makeParent_of_within {t u : FileTree} {p : Path} {bytes : ByteArray} (h : t.Within u)
    (hp : u.find p = .ok (.file bytes)) :
    (runIn t (makeParent p)).1 = .ok () ∧
      ∀ q, p.parent? = some q → q.text ≠ "" →
        (runIn t (makeParent p)).2.tree.find q = .ok .directory := by
  rw [makeParent]
  cases hq : p.parent? with
  | none =>
    refine ⟨rfl, fun q hq' => ?_⟩
    cases hq'
  | some q =>
    simp only
    split_ifs with hempty
    · refine ⟨rfl, fun q' hq' hne => ?_⟩
      obtain rfl := Option.some.inj hq'
      exact absurd hempty hne
    · have hmem : q ∈ p.ancestors := by
        rw [Path.ancestors_eq_cons hq]
        exact List.mem_cons_self
      have hmade : (t.makeDirectoryBelow q q.ancestors).1 = .ok () :=
        makeDirectories_of_within h (find_ancestor_of_find hp q hmem hempty) (Path.plain_parent hq)
      have hfound := (t.makeDirectoryBelow_grows q q.ancestors).2 hmade hempty
      refine ⟨?_, fun q' hq' _ => ?_⟩
      · show (t.makeDirectoryBelow q q.ancestors).1.mapError (Failure.access q) = .ok ()
        rw [hmade]
        rfl
      · obtain rfl := Option.some.inj hq'
        exact hfound

theorem writeModule_of_within {t u : FileTree} {p : Path} {bytes : ByteArray} (h : t.Within u)
    (hp : u.find p = .ok (.file bytes)) (text : String) :
    ∃ v, runIn t (writeModule p text) = (.ok (), ⟨v, []⟩) ∧ t.Written v p text := by
  obtain ⟨hmade, hparent⟩ := makeParent_of_within h hp
  have hgrow := (makeParent_grows t p).1
  have hwithin := h.of_grows hgrow (find_ancestor_of_find hp) fun l hl => hl.elim
  obtain ⟨v, hv⟩ := writeBytes_of_within hwithin hp hparent text.toUTF8
  refine ⟨v, ?_, .of_writeBytes hgrow hv⟩
  simp only [runIn_writeModule, hmade, runIn_writeText, hv]
  rfl

theorem FileTree.Written.swap {t t₁ u : FileTree} {p q : Path} {text text' : String}
    (h₁ : t.Written t₁ p text) (h₂ : t₁.Written u q text') (hne : t.target p ≠ t.target q) :
    ∃ t₂, runIn t (writeModule q text') = (.ok (), ⟨t₂, []⟩) ∧ t.Written t₂ q text' ∧
      runIn t₂ (writeModule p text) = (.ok (), ⟨u, []⟩) := by
  have hwithin := h₁.within.trans h₂.within
  obtain ⟨t₂, hrun, hwritten⟩ := writeModule_of_within hwithin h₂.find text'
  have hkept : u.find p = .ok (.file text.toUTF8) := by
    have hfind := h₂.find_eq h₁.find
    rw [target_of_workingDirectory h₁.grows.workingDirectory,
      target_of_workingDirectory h₁.grows.workingDirectory, if_neg hne.symm] at hfind
    exact hfind
  have hwithin' := hwritten.within_of_find hwithin h₂.find
  obtain ⟨u', hrun', hwritten'⟩ := writeModule_of_within hwithin' hkept text
  obtain rfl := h₁.comm h₂ hwritten hwritten' hne
  exact ⟨t₂, hrun, hwritten, hrun'⟩

namespace Generator

variable {g : Generator} {d₁ d₂ : Path} {s : Session} {m₁ m₂ r : Generation} {u : FileTree}

def generateBoth (g : Generator) (d₁ d₂ : Path) (s : Session) :
    Except Failure Generation × Except Failure Generation × FileTree :=
  let first := g.perform d₁ .generate s
  let second := g.perform d₂ .generate first.2
  (first.1, second.1, second.2.tree)

theorem exists_readText_of_render (h : (g.perform d₁ .render s).1 = .ok r) :
    ∃ content, s.tree.readText d₁ = .ok content := by
  rw [perform, render_fst] at h
  obtain ⟨content, -, hread, -⟩ := evaluate_eq_ok_iff.mp h
  exact ⟨content, hread⟩

/-- Generations commute when both succeed in one order and neither module is in the file of the
other or of the other's declaration: the other order gives the same two modules and the same
tree. -/
theorem generateBoth_comm (hrender : (g.perform d₂ .render s).1 = .ok r)
    (h : g.generateBoth d₁ d₂ s = (.ok m₁, .ok m₂, u))
    (hout : u.locate m₁.output ≠ u.locate m₂.output)
    (hd₁ : u.locate m₂.output ≠ u.locate d₁) (hd₂ : u.locate m₁.output ≠ u.locate d₂) :
    g.generateBoth d₂ d₁ s = (.ok m₂, .ok m₁, u) := by
  obtain ⟨hfirst, hsecond⟩ := Prod.mk.inj h
  obtain ⟨hsecond, htree⟩ := Prod.mk.inj hsecond
  obtain ⟨heval₁, hw₁⟩ := generate_eq_ok hfirst
  obtain ⟨heval₂, hw₂⟩ := generate_eq_ok hsecond
  rw [htree] at hw₂
  generalize (g.perform d₁ .generate s).2.tree = t₁ at hw₁ hw₂ heval₂
  obtain ⟨content₁, -, hread₁, -⟩ := evaluate_eq_ok_iff.mp heval₁
  obtain ⟨content₂, hread₂⟩ := exists_readText_of_render hrender
  -- in the tree after both, every path leads where it led before
  have htarget := target_of_workingDirectory hw₁.grows.workingDirectory
  have hlocate₁ := hw₂.extends.locate (hw₁.locate (readText_eq_ok_iff.mp hread₁))
  have hlocate₂ := hw₂.extends.locate (hw₁.locate (readText_eq_ok_iff.mp hread₂))
  have hmodule₁ := hw₂.extends.locate hw₁.locate_self
  have hmodule₂ := hw₂.locate_self
  rw [htarget] at hmodule₂
  rw [hmodule₁, hmodule₂, Ne, Except.ok.injEq] at hout
  rw [hmodule₂, hlocate₁, Ne, Except.ok.injEq] at hd₁
  rw [hmodule₁, hlocate₂, Ne, Except.ok.injEq] at hd₂
  obtain ⟨t₂, hrun₂, hw₂', hrun₁⟩ := hw₁.swap hw₂ hout
  -- so either declaration is read as it was, whichever module is written first
  rw [hw₁.readText hread₂ hd₂, ← hread₂] at heval₂
  obtain ⟨hfirst', htree'⟩ := generate_of_writeModule heval₂ hrun₂
  rw [hread₁, ← hw₂'.readText hread₁ hd₁, ← htree'] at heval₁
  rw [← htree'] at hrun₁
  obtain ⟨hsecond', hu⟩ := generate_of_writeModule heval₁ hrun₁
  rw [generateBoth, hfirst', hsecond', hu]

def moduleBeside (extension file : String) : Generation where
  declaration := ⟨"troute." ++ extension⟩
  output := ⟨"lib/../gen/actions." ++ extension⟩
  entryPoints := ⟨["a"]⟩
  resolution := ⟨[⟨["a"], "./" ++ file⟩], [], []⟩
  extraCalls := 0
  content := "\"use server\"\n\nimport \x7b a \x7d from \"../" ++ file ++ "\";\n\nexport \x7b a \x7d\n"

theorem generateBoth_comm_shared :
    let g := ofSettings { outputDir := "lib/../gen" }
    let tree := (FileTree.holding "troute.ts" (importing "./x")).place ["project"] "troute.tsx"
      (.file (importing "./y").toUTF8) (by decide) (by decide)
    let m₁ := moduleBeside "ts" "x"
    let m₂ := moduleBeside "tsx" "y"
    let both := g.generateBoth ⟨"troute.ts"⟩ ⟨"troute.tsx"⟩ ⟨tree, []⟩
    both.1 = .ok m₁ ∧ both.2.1 = .ok m₂ ∧ tree.isDirectory ⟨"lib/../gen"⟩ = false ∧
      g.generateBoth ⟨"troute.tsx"⟩ ⟨"troute.ts"⟩ ⟨tree, []⟩ = (.ok m₂, .ok m₁, both.2.2) := by
  intro g tree m₁ m₂ both
  have hrun : (g.perform ⟨"troute.tsx"⟩ .render ⟨tree, []⟩).1 = .ok m₂ ∧
      both.1 = .ok m₁ ∧ both.2.1 = .ok m₂ ∧
      both.2.2.locate m₁.output ≠ both.2.2.locate m₂.output ∧
      both.2.2.locate m₂.output ≠ both.2.2.locate ⟨"troute.ts"⟩ ∧
      both.2.2.locate m₁.output ≠ both.2.2.locate ⟨"troute.tsx"⟩ := by
    decide +kernel
  obtain ⟨hrender, hfirst, hsecond, hout, hd₁, hd₂⟩ := hrun
  have h : both = (.ok m₁, .ok m₂, both.2.2) := by
    rw [← hfirst, ← hsecond, Prod.eta]
  exact ⟨hfirst, hsecond, by decide +kernel, generateBoth_comm hrender h hout hd₁ hd₂⟩

end Generator

end ServerActions
